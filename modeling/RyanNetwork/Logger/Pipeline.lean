import RyanNetwork.Logger.Conservation
import RyanNetwork.Logger.LogFile

/-!
# From `Append` to the log files

The backend thread of `AsyncLogging` with the `LogFile` that it writes to. A buffer is handed
over with `data()` and `Length()`, which is the whole array: the records and whatever the
array holds after them. Since the file is changed only between two such blocks, no record
is divided between two files. Where a file is opened under the name of an earlier one, its
blocks stand behind those of the earlier one.
-/
namespace RyanNetwork.Logger

open Lib Directory AsyncLogging

set_option autoImplicit false

variable {SIZE : Nat}

/-- `log` is the `output` of `ThreadFunc` once the thread runs. -/
structure Pipeline (SIZE : Nat) where
  front : AsyncLogging SIZE
  log : Option Clocked

/-- `LogFile output(basename_, roll_size_, false)`. -/
def outputConf (basename : List UInt8) (localtime : Nat → Tm) (rollSize : Int) : LogConf :=
  ⟨basename, localtime, rollSize, 0, 1024⟩

/-- A step of some thread, with what it reads off the clock. -/
inductive PipelineStep (SIZE : Nat) where
  | append (logline : List UInt8) (memory : List.Vector UInt8 SIZE)
  | start (now : Nat)
  | backend
  | write (arrival checked rolled : Nat)
  | stop

/-- The buffer that the backend hands over next. -/
def handed (s : AsyncLogging SIZE) : Option (FixedBuffer SIZE) :=
  match s.phase with
  | .writing k => s.buffersToWrite[k]?
  | _ => none

/-- The files do not change but in a `write`; `streams k` is the stream of opening `k`. -/
def Pipeline.Step (conf : LogConf) (streams : Nat → Stream) (p : Pipeline SIZE)
    (a : PipelineStep SIZE) (q : Pipeline SIZE) : Prop :=
  match a with
  | .append logline memory => p.front.Step (.append logline memory) q.front ∧ q.log = p.log
  | .start now => p.front.Step .start q.front ∧ 0 < now ∧ q.log = some ⟨.new conf now, now⟩
  | .backend => p.front.Step .backend q.front ∧ handed p.front = none ∧ q.log = p.log
  | .write arrival checked rolled => p.front.Step .backend q.front ∧
      ∃ buffer l l', handed p.front = some buffer ∧ p.log = some l ∧ q.log = some l' ∧
        Appends conf streams l ⟨buffer.toString, arrival, checked, rolled⟩ l'
  | .stop => p.front.Step .stop q.front ∧ q.log = p.log

/-- A file that the step opens is a new one. -/
def Pipeline.Creates (conf : LogConf) (existing : List (File (List UInt8) UInt8))
    (p : Pipeline SIZE) (a : PipelineStep SIZE) : Prop :=
  match a with
  | .start now => NewName conf existing now
  | .write arrival checked rolled => ∀ buffer ∈ handed p.front, ∀ l ∈ p.log,
      l.Creates conf existing ⟨buffer.toString, arrival, checked, rolled⟩
  | _ => True

/-! ## Records in buffers -/

/-- The buffers on their way, in order. -/
def slots (s : AsyncLogging SIZE) : List (FixedBuffer SIZE) :=
  s.output ++ unhanded s ++ s.buffers ++ s.current.toList

def rows (s : AsyncLogging SIZE) : List (List UInt8) := (slots s).map FixedBuffer.payload

/-- The records go to the last row, or to a new one. -/
def Grows (xs ys : List (List UInt8)) (records : List (List UInt8)) : Prop :=
  ys = xs ∧ records = [] ∨ ys = xs ++ [records.flatten] ∨
    ∃ zs z, xs = zs ++ [z] ∧ ys = zs ++ [z ++ records.flatten]

/-- Rows of whole records stay rows of whole records. -/
theorem Grows.groups {xs ys records : List (List UInt8)} (h : Grows xs ys records)
    {gs : List (List (List UInt8))} (hgs : xs = gs.map List.flatten) :
    ∃ gs' : List (List (List UInt8)), ys = gs'.map List.flatten ∧
      gs'.flatten = gs.flatten ++ records := by
  rcases h with ⟨rfl, rfl⟩ | rfl | ⟨zs, z, rfl, rfl⟩
  · exact ⟨gs, hgs, (List.append_nil _).symm⟩
  · refine ⟨gs ++ [records], ?_, ?_⟩
    · rw [hgs, List.map_append]
      rfl
    · rw [List.flatten_append, List.flatten_singleton]
  · obtain ⟨gs₀, last, rfl, hzs, hlast⟩ := List.map_eq_append_iff.mp hgs.symm
    obtain ⟨g, rfl, rfl⟩ := List.map_eq_singleton_iff.mp hlast
    refine ⟨gs₀ ++ [g ++ records], ?_, ?_⟩
    · rw [List.map_append, hzs, List.map_singleton, List.flatten_append]
    · rw [List.flatten_append, List.flatten_append, List.flatten_singleton,
        List.flatten_singleton, List.append_assoc]

section Steps

variable {s t : AsyncLogging SIZE}

theorem rows_eq (hout : t.output = s.output) (hun : unhanded t = unhanded s)
    (hbuf : t.buffers = s.buffers) (hcur : t.current = s.current) : rows t = rows s := by
  unfold rows slots
  rw [hout, hun, hbuf, hcur]

theorem append_rows (h : Stocked s) {logline : List UInt8} {memory : List.Vector UInt8 SIZE}
    (hlen : logline.length < SIZE) (ht : s.append logline memory = .ok t) :
    Grows (rows s) (rows t) [logline] := by
  obtain ⟨current, hcur, ht⟩ := bind_ok ht
  obtain hcur := deref_ok hcur
  have hrows : rows s = (s.output ++ unhanded s ++ s.buffers).map FixedBuffer.payload
      ++ [current.payload] := by
    unfold rows slots
    rw [hcur, List.map_append]
    rfl
  split at ht
  · rename_i hroom
    cases ht
    refine Or.inr (Or.inr ⟨_, _, hrows, ?_⟩)
    show ((s.output ++ unhanded s ++ s.buffers) ++ [current.append logline]).map _ = _
    rw [List.map_append, List.map_singleton, FixedBuffer.payload_append hroom]
    simp
  · cases ht
    have hempty : (s.next.getD (.new memory)).payload = [] := by
      cases hn : s.next with
      | none => exact FixedBuffer.payload_new memory
      | some b => exact h.empty b (Or.inl hn)
    have hfits : logline.length < (s.next.getD (.new memory)).avail := by
      rw [FixedBuffer.avail_of_payload hempty]
      exact hlen
    refine Or.inr (Or.inl ?_)
    rw [hrows]
    show ((s.output ++ unhanded s ++ (s.buffers ++ [current]))
      ++ [(s.next.getD (.new memory)).append logline]).map _ = _
    rw [List.map_append, List.map_singleton, FixedBuffer.payload_append hfits, hempty]
    simp

theorem append_frame {logline : List UInt8} {memory : List.Vector UInt8 SIZE}
    (ht : s.append logline memory = .ok t) : t.output = s.output ∧ t.phase = s.phase := by
  obtain ⟨current, -, ht⟩ := bind_ok ht
  split at ht
  · cases ht
    exact ⟨rfl, rfl⟩
  · cases ht
    exact ⟨rfl, rfl⟩

/-- The spare buffer that becomes the current one is a new row. -/
theorem swapBuffers_rows (h : Stocked s)
    (hp : s.phase = .locking ∨ s.phase = .waiting) (ht : s.swapBuffers = .ok t) :
    Grows (rows s) (rows t) [] := by
  obtain ⟨h1, -, hw⟩ := h.idle (Or.inr hp)
  obtain ⟨b, hb⟩ := Option.isSome_iff_exists.mp h1
  have hnone : unhanded s = [] := by
    refine unhanded_nil fun k hk => ?_
    rw [hk] at hp
    rcases hp with hp | hp
    · cases hp
    · cases hp
  obtain ⟨current, hcur, ht⟩ := bind_ok ht
  obtain hcur := deref_ok hcur
  cases ht
  refine Or.inr (Or.inl ?_)
  show ((s.output ++ (s.buffers ++ [current]) ++ s.buffersToWrite) ++ s.newBuffer1.toList).map _
    = _
  unfold rows slots
  rw [hnone, hw, hb, hcur]
  simp [h.empty b (Or.inr (Or.inl hb))]

theorem swapBuffers_output (ht : s.swapBuffers = .ok t) : t.output = s.output := by
  obtain ⟨current, -, ht⟩ := bind_ok ht
  cases ht
  rfl

theorem handOver_rows {k : Nat} (hp : s.phase = .writing k) (ht : s.handOver k = .ok t) :
    rows t = rows s ∧ ∃ b, handed s = some b ∧ t.output = s.output ++ [b] := by
  obtain ⟨b, hb, ht⟩ := bind_ok ht
  obtain hb := deref_ok hb
  cases ht
  obtain ⟨hk, hget⟩ := List.getElem?_eq_some_iff.mp hb
  have hun : unhanded s = b :: s.buffersToWrite.drop (k + 1) := by
    unfold unhanded
    rw [hp, ← hget]
    exact List.drop_eq_getElem_cons hk
  refine ⟨?_, b, ?_, rfl⟩
  · show ((s.output ++ [b] ++ s.buffersToWrite.drop (k + 1)) ++ s.buffers
      ++ s.current.toList).map _ = _
    unfold rows slots
    rw [hun]
    simp
  · unfold handed
    rw [hp]
    exact hb

/-- A step of the backend that hands nothing over. -/
theorem backend_rows (h : Stocked s) (hnone : handed s = none) (ha : s.Enabled .backend)
    (ht : s.backend = .ok t) : Grows (rows s) (rows t) [] ∧ t.output = s.output := by
  unfold AsyncLogging.backend at ht
  cases hp : s.phase with
  | unstarted => exact absurd hp ha.1
  | finished => exact absurd hp ha.2
  | testing =>
    rw [hp] at ht
    cases ht
    have hun : unhanded s = [] := unhanded_nil (by simp [hp])
    have hun' : unhanded s.test = [] := by
      refine unhanded_nil fun k hk => ?_
      simp only [AsyncLogging.test] at hk
      split at hk
      · cases hk
      · cases hk
    exact ⟨Or.inl ⟨rows_eq rfl (hun'.trans hun.symm) rfl rfl, rfl⟩, rfl⟩
  | locking =>
    rw [hp] at ht
    dsimp only at ht
    unfold AsyncLogging.lock at ht
    split at ht
    · cases ht
      have hun : unhanded s = [] := unhanded_nil (by simp [hp])
      exact ⟨Or.inl ⟨rows_eq rfl hun.symm rfl rfl, rfl⟩, rfl⟩
    · exact ⟨swapBuffers_rows h (Or.inl hp) ht, swapBuffers_output ht⟩
  | waiting =>
    rw [hp] at ht
    exact ⟨swapBuffers_rows h (Or.inr hp) ht, swapBuffers_output ht⟩
  | writing k =>
    have hk : ¬k < s.buffersToWrite.length := by
      unfold handed at hnone
      rw [hp] at hnone
      exact Nat.not_lt.mpr (List.getElem?_eq_none_iff.mp hnone)
    rw [hp] at ht
    dsimp only at ht
    rw [if_neg hk] at ht
    obtain ⟨pair, -, ht⟩ := bind_ok ht
    cases ht
    have hun : unhanded s = [] := by
      unfold unhanded
      rw [hp]
      exact List.drop_eq_nil_of_le (Nat.le_of_not_lt hk)
    exact ⟨Or.inl ⟨rows_eq rfl hun.symm rfl rfl, rfl⟩, rfl⟩
  | recycling =>
    rw [hp] at ht
    obtain ⟨pair, -, ht⟩ := bind_ok ht
    cases ht
    have hun : unhanded s = [] := unhanded_nil (by simp [hp])
    exact ⟨Or.inl ⟨rows_eq rfl hun.symm rfl rfl, rfl⟩, rfl⟩

/-- A step of the backend that hands a buffer over. -/
theorem backend_hands {b : FixedBuffer SIZE} (hb : handed s = some b) (ht : s.backend = .ok t) :
    rows t = rows s ∧ t.output = s.output ++ [b] := by
  unfold AsyncLogging.backend at ht
  cases hp : s.phase with
  | writing k =>
    have hk : k < s.buffersToWrite.length := by
      unfold handed at hb
      rw [hp] at hb
      exact (List.getElem?_eq_some_iff.mp hb).1
    rw [hp] at ht
    dsimp only at ht
    rw [if_pos hk] at ht
    obtain ⟨hrows, c, hc, hout⟩ := handOver_rows hp ht
    rw [hb] at hc
    cases hc
    exact ⟨hrows, hout⟩
  | unstarted | testing | locking | waiting | recycling | finished =>
    unfold handed at hb
    rw [hp] at hb
    cases hb

/-- A thread that runs does not become one that was not started. -/
theorem backend_started (ha : s.Enabled .backend) (ht : s.backend = .ok t) :
    t.phase ≠ .unstarted := by
  unfold AsyncLogging.backend at ht
  cases hp : s.phase with
  | unstarted => exact absurd hp ha.1
  | finished => exact absurd hp ha.2
  | testing =>
    rw [hp] at ht
    cases ht
    unfold AsyncLogging.test
    dsimp only
    split
    · exact Phase.noConfusion
    · exact Phase.noConfusion
  | locking =>
    rw [hp] at ht
    dsimp only at ht
    unfold AsyncLogging.lock at ht
    split at ht
    · cases ht
      exact Phase.noConfusion
    · obtain ⟨_, -, ht⟩ := bind_ok ht
      cases ht
      exact Phase.noConfusion
  | writing k =>
    rw [hp] at ht
    dsimp only at ht
    split at ht
    · obtain ⟨_, -, ht⟩ := bind_ok ht
      cases ht
      exact Phase.noConfusion
    · obtain ⟨_, -, ht⟩ := bind_ok ht
      cases ht
      exact Phase.noConfusion
  | waiting | recycling =>
    rw [hp] at ht
    obtain ⟨_, -, ht⟩ := bind_ok ht
    cases ht
    exact Phase.noConfusion

end Steps

/-! ## Blocks in files -/

/-- The records of a buffer, and what its array holds after them. -/
structure Block where
  records : List (List UInt8)
  rest : List UInt8

def Block.bytes (b : Block) : List UInt8 := b.records.flatten ++ b.rest

theorem toString_length (b : FixedBuffer SIZE) : b.toString.length = SIZE := by
  rw [FixedBuffer.toString_eq, FixedBuffer.payload, List.take_append_drop]
  exact b.size_eq

/-- Buffers of whole records are blocks. -/
theorem exists_blocks : ∀ (gs : List (List (List UInt8))) (bs : List (FixedBuffer SIZE)),
    gs.map List.flatten = bs.map FixedBuffer.payload →
    ∃ blocks : List Block, blocks.flatMap Block.records = gs.flatten ∧
      blocks.map Block.bytes = bs.map FixedBuffer.toString := by
  intro gs
  induction gs with
  | nil =>
    intro bs h
    obtain rfl := List.map_eq_nil_iff.mp h.symm
    exact ⟨[], rfl, rfl⟩
  | cons g gs ih =>
    intro bs h
    cases bs with
    | nil => cases h
    | cons b bs =>
      rw [List.map_cons, List.map_cons, List.cons.injEq] at h
      obtain ⟨blocks, hrecords, hbytes⟩ := ih bs h.2
      refine ⟨⟨g, b.data.drop b.curr⟩ :: blocks, ?_, ?_⟩
      · rw [List.flatMap_cons, List.flatten_cons, hrecords]
      · rw [List.map_cons, List.map_cons, hbytes, FixedBuffer.toString_eq, ← h.1]
        rfl

/-- A list that agrees with another one is divided like it. -/
theorem exists_regroup {α β γ : Type} {f : α → γ} {g : β → γ} :
    ∀ (groups : List (List α)) (ys : List β), groups.flatten.map f = ys.map g →
      ∃ parts : List (List β), parts.flatten = ys ∧ parts.map (·.map g) = groups.map (·.map f) := by
  intro groups
  induction groups with
  | nil =>
    intro ys h
    obtain rfl := List.map_eq_nil_iff.mp h.symm
    exact ⟨[], rfl, rfl⟩
  | cons group groups ih =>
    intro ys h
    rw [List.flatten_cons, List.map_append] at h
    obtain ⟨part, rest, rfl, hpart, hrest⟩ := List.map_eq_append_iff.mp h.symm
    obtain ⟨parts, hparts, hmap⟩ := ih rest hrest.symm
    refine ⟨part :: parts, ?_, ?_⟩
    · rw [List.flatten_cons, hparts]
    · rw [List.map_cons, List.map_cons, hpart, hmap]

/-- The records of a step of the pipeline. -/
def PipelineStep.records : PipelineStep SIZE → List (List UInt8)
  | .append logline _ => [logline]
  | _ => []

/-- What holds in every state of the pipeline, after `records` were appended. -/
structure Flowing (conf : LogConf) (existing : List (File (List UInt8) UInt8))
    (p : Pipeline SIZE) (records : List (List UInt8)) : Prop where
  stocked : Stocked p.front
  rows : ∃ gs : List (List (List UInt8)), rows p.front = gs.map List.flatten ∧
    gs.flatten = records
  started : p.front.phase = .unstarted → p.log = none
  unopened : p.log = none → p.front.output = []
  logged : ∀ l, p.log = some l → ∃ calls gs g file,
    Rolling conf existing l calls gs g file ∧
      calls.map AppendCall.data = p.front.output.map FixedBuffer.toString

section Invariant

variable {conf : LogConf} {streams : Nat → Stream} {existing : List (File (List UInt8) UInt8)}
  {p q : Pipeline SIZE} {records : List (List UInt8)}

theorem flowing_new : Flowing conf existing (⟨.new SIZE, none⟩ : Pipeline SIZE) [] := by
  refine ⟨stocked_new, ⟨[[]], ?_, rfl⟩, fun _ => rfl, fun _ => rfl, ?_⟩
  · show [(cleared SIZE).payload] = [[]]
    rw [cleared_payload]
  · intro l hl
    cases hl

/-- A step of the front and the backend that hands nothing over. -/
theorem Flowing.quiet (h : Flowing conf existing p records) {more : List (List UInt8)}
    {a : LogStep SIZE} (hstep : p.front.Step a q.front)
    (hgrows : Grows (Logger.rows p.front) (Logger.rows q.front) more)
    (hout : q.front.output = p.front.output) (hlog : q.log = p.log)
    (hphase : q.front.phase = .unstarted → p.front.phase = .unstarted) :
    Flowing conf existing q (records ++ more) := by
  obtain ⟨t, ht, hstocked, -⟩ := perform_keeps h.stocked hstep.1
  cases hstep.2.symm.trans ht
  obtain ⟨gs, hrows, hgs⟩ := h.rows
  obtain ⟨gs', hrows', hgs'⟩ := hgrows.groups hrows
  refine ⟨hstocked, ⟨gs', hrows', by rw [hgs', hgs]⟩, ?_, ?_, ?_⟩
  · intro hp
    rw [hlog]
    exact h.started (hphase hp)
  · intro hnone
    rw [hout]
    exact h.unopened (hlog.symm.trans hnone)
  · intro l hl
    rw [hout]
    exact h.logged l (hlog.symm.trans hl)

/-- Every step keeps the invariant. -/
theorem Flowing.step (h : Flowing conf existing p records) (hn : 1 ≤ conf.checkEveryN)
    {a : PipelineStep SIZE} (hstep : p.Step conf streams a q) (hc : p.Creates conf existing a) :
    Flowing conf existing q (records ++ a.records) := by
  cases a with
  | append logline memory =>
    obtain ⟨hfront, hlog⟩ := hstep
    obtain ⟨hout, hphase⟩ := append_frame hfront.2
    exact h.quiet hfront (append_rows h.stocked hfront.1 hfront.2) hout hlog
      fun hp => hphase.symm.trans hp
  | stop =>
    obtain ⟨hfront, hlog⟩ := hstep
    obtain hstop := Except.ok.inj hfront.2
    refine h.quiet hfront (Or.inl ⟨?_, rfl⟩) ?_ hlog ?_
    · rw [← hstop]
      rfl
    · rw [← hstop]
      rfl
    · rw [← hstop]
      exact id
  | backend =>
    obtain ⟨hfront, hnone, hlog⟩ := hstep
    obtain ⟨hgrows, hout⟩ := backend_rows h.stocked hnone hfront.1 hfront.2
    exact h.quiet hfront hgrows hout hlog fun hp => absurd hp (backend_started hfront.1 hfront.2)
  | start now =>
    obtain ⟨hfront, hnow, hlog⟩ := hstep
    have hout := h.unopened (h.started hfront.1)
    obtain ⟨t, ht, hstocked, -⟩ := perform_keeps h.stocked hfront.1
    cases hfront.2.symm.trans ht
    have hstart := Except.ok.inj hfront.2
    have hun : unhanded p.front = [] := by
      refine unhanded_nil fun k hk => ?_
      cases hfront.1.symm.trans hk
    have hrows : Logger.rows q.front = Logger.rows p.front := by
      rw [← hstart]
      exact rows_eq rfl hun.symm rfl rfl
    have hout' : q.front.output = [] := by
      rw [← hstart]
      exact hout
    rw [show PipelineStep.records (.start now : PipelineStep SIZE) = [] from rfl, List.append_nil]
    refine ⟨hstocked, hrows ▸ h.rows, ?_, fun _ => hout', ?_⟩
    · intro hp
      rw [← hstart] at hp
      cases hp
    · intro l hl
      rw [hlog] at hl
      cases hl
      refine ⟨[], [], [], conf.openFile now, Rolling.new hn hnow hc, ?_⟩
      rw [hout']
      rfl
  | write arrival checked rolled =>
    obtain ⟨hfront, buffer, l, l', hb, hl, hl', happends⟩ := hstep
    obtain ⟨hrows, hout⟩ := backend_hands hb hfront.2
    obtain ⟨t, ht, hstocked, -⟩ := perform_keeps h.stocked hfront.1
    cases hfront.2.symm.trans ht
    obtain ⟨calls, gs, g, file, hrolling, hcalls⟩ := h.logged l hl
    obtain ⟨gs', g', file', hrolling'⟩ := hrolling.step hn happends (hc _ hb _ hl)
    rw [show PipelineStep.records (.write arrival checked rolled : PipelineStep SIZE) = [] from rfl,
      List.append_nil]
    refine ⟨hstocked, hrows ▸ h.rows, ?_, ?_, ?_⟩
    · exact fun hp => absurd hp (backend_started hfront.1 hfront.2)
    · intro hnone
      cases hl'.symm.trans hnone
    · intro l₁ hl₁
      cases hl'.symm.trans hl₁
      refine ⟨_, gs', g', file', hrolling', ?_⟩
      rw [List.map_append, hcalls, hout, List.map_append]
      rfl

theorem Flowing.run {steps : List (PipelineStep SIZE)} (hn : 1 ≤ conf.checkEveryN)
    (hr : Run (fun p a q => p.Step conf streams a q ∧ p.Creates conf existing a) p steps q)
    (h : Flowing conf existing p records) :
    Flowing conf existing q (records ++ steps.flatMap PipelineStep.records) := by
  induction hr generalizing records with
  | nil p => simpa using h
  | cons hstep _ ih =>
    have hrest := ih (h.step hn hstep.1 hstep.2)
    rwa [List.append_assoc] at hrest

/-- The blocks and the records that the invariant speaks of. -/
theorem Flowing.blocks (h : Flowing conf existing p records) :
    ∃ (blocks : List Block) (waiting : List (List UInt8)),
      blocks.flatMap Block.records ++ waiting = records ∧
      blocks.map Block.bytes = p.front.output.map FixedBuffer.toString ∧
      waiting.flatten = payloads (unhanded p.front) ++ pending p.front := by
  obtain ⟨gs, hrows, hgs⟩ := h.rows
  have hsplit : Logger.rows p.front = p.front.output.map FixedBuffer.payload ++
      (unhanded p.front ++ p.front.buffers ++ p.front.current.toList).map FixedBuffer.payload := by
    unfold Logger.rows slots
    rw [← List.map_append]
    simp only [List.append_assoc]
  obtain ⟨gs₁, gs₂, rfl, hdone, hrest⟩ := List.map_eq_append_iff.mp (hrows.symm.trans hsplit)
  obtain ⟨blocks, hrecords, hbytes⟩ := exists_blocks gs₁ _ hdone
  refine ⟨blocks, gs₂.flatten, ?_, hbytes, ?_⟩
  · rw [hrecords, ← List.flatten_append, hgs]
  · rw [List.flatten_flatten, hrest, ← List.flatMap_def, List.flatMap_append, List.flatMap_append,
      List.append_assoc]
    rfl

end Invariant

/-- The files on the disk that held `existing` at first. -/
def Pipeline.disk (existing : List (File (List UInt8) UInt8)) (p : Pipeline SIZE) :
    List (File (List UInt8) UInt8) :=
  match p.log with
  | some l => l.log.disk existing
  | none => existing

/-- For every interleaving of `Append` calls, the backend's steps, `Start` and `Stop`, every
size limit, every behaviour of the disk and every clock that does not go back, as long as no
file is opened under the name of one that is there: the files that were created are blocks of
`SIZE` bytes, each with whole records at its beginning; the records of the blocks, file after
file, and then those that wait in memory are the records in the order of the calls; and files
are opened at increasing seconds. -/
theorem records_reach_files {basename : List UInt8} {localtime : Nat → Tm} {rollSize : Int}
    {streams : Nat → Stream} {existing : List (File (List UInt8) UInt8)}
    {steps : List (PipelineStep SIZE)} {p : Pipeline SIZE}
    (hr : Run (fun p a q => p.Step (outputConf basename localtime rollSize) streams a q ∧
      p.Creates (outputConf basename localtime rollSize) existing a) ⟨.new SIZE, none⟩ steps p) :
    ∃ (created : List (File (List UInt8) UInt8)) (parts : List (List Block))
        (waiting : List (List UInt8)),
      p.disk existing = existing ++ created ∧
      parts.flatten.flatMap Block.records ++ waiting = steps.flatMap PipelineStep.records ∧
      created.map File.contents = parts.map (·.flatMap Block.bytes) ∧
      (∀ b ∈ parts.flatten, b.bytes.length = SIZE) ∧
      waiting.flatten = payloads (unhanded p.front) ++ pending p.front ∧
      (created.map File.time).Pairwise (· < ·) := by
  have hn : 1 ≤ (outputConf basename localtime rollSize).checkEveryN := by
    show (1 : Int) ≤ 1024
    decide
  have h := flowing_new.run hn hr
  rw [List.nil_append] at h
  obtain ⟨blocks, waiting, hrecords, hbytes, hwaiting⟩ := h.blocks
  have hsize : ∀ b ∈ blocks, b.bytes.length = SIZE := by
    intro b hb
    have hmem := List.mem_map_of_mem (f := Block.bytes) hb
    rw [hbytes] at hmem
    obtain ⟨buffer, -, he⟩ := List.mem_map.mp hmem
    rw [← he]
    exact toString_length buffer
  unfold Pipeline.disk
  cases hlog : p.log with
  | none =>
    rw [h.unopened hlog] at hbytes
    obtain rfl := List.map_eq_nil_iff.mp hbytes
    exact ⟨[], [], waiting, (List.append_nil existing).symm, hrecords, rfl, hsize, hwaiting,
      List.Pairwise.nil⟩
  | some l =>
    obtain ⟨calls, gs, g, file, hrolling, hcalls⟩ := h.logged l hlog
    obtain ⟨hdisk, hfiled⟩ := hrolling.filed
    have hagree : (gs ++ [g]).flatten.map AppendCall.data = blocks.map Block.bytes := by
      rw [hfiled.complete, hcalls, hbytes]
    obtain ⟨parts, hparts, hmap⟩ := exists_regroup (gs ++ [g]) blocks hagree
    refine ⟨_, parts, waiting, hdisk, ?_, ?_, ?_, hwaiting, hfiled.increasing⟩
    · rw [hparts, hrecords]
    · have hflat := congrArg (List.map List.flatten) hmap
      rw [List.map_map, List.map_map] at hflat
      rw [hfiled.contents]
      exact hflat.symm
    · rw [hparts]
      exact hsize

def smallFiles : LogConf := outputConf (chars "log") utc 3

/-- Two records that each need a buffer, and files of one buffer. -/
def twoRecords : List (PipelineStep 4) := [.append [1, 2] (.replicate 4 7),
  .append [3, 4] (.replicate 4 7), .start 86399, .backend, .backend, .write 86399 86399 86400,
  .write 86400 86400 86400]

theorem two_records_filed : ∃ (p : Pipeline 4) (created : List (File (List UInt8) UInt8))
    (parts : List (List Block)) (waiting : List (List UInt8)),
    Run (fun (p : Pipeline 4) a q =>
      p.Step smallFiles (fun _ => roomy) a q ∧ p.Creates smallFiles [] a)
      ⟨.new 4, none⟩ twoRecords p ∧
    p.disk [] = [⟨chars "log.19700101-235959.log", 86399, [1, 2, 0, 0]⟩,
      ⟨chars "log.19700102-000000.log", 86400, [3, 4, 0, 0]⟩] ∧
    p.disk [] = [] ++ created ∧
    parts.flatten.flatMap Block.records ++ waiting = [[1, 2], [3, 4]] ∧
    created.map File.contents = parts.map (·.flatMap Block.bytes) := by
  let b₁ : FixedBuffer 4 := (cleared 4).append [1, 2]
  let b₂ : FixedBuffer 4 := (cleared 4).append [3, 4]
  let s₁ : AsyncLogging 4 := { AsyncLogging.new 4 with current := some b₁ }
  let s₂ : AsyncLogging 4 := { s₁ with buffers := [b₁], next := none, current := some b₂ }
  let s₃ := s₂.start
  let s₄ := s₃.test
  let s₅ : AsyncLogging 4 := { s₄ with
    buffersToWrite := [b₁, b₂], buffers := [], current := s₄.newBuffer1, newBuffer1 := none,
    next := s₄.newBuffer2, newBuffer2 := none, phase := .writing 0 }
  let s₆ : AsyncLogging 4 := { s₅ with output := [b₁], phase := .writing 1 }
  let s₇ : AsyncLogging 4 := { s₆ with output := [b₁, b₂], phase := .writing 2 }
  let first := smallFiles.openFile 86399
  let second := smallFiles.openFile 86400
  let l₀ : Clocked := ⟨⟨0, 0, 86399, 86399, [], some first⟩, 86399⟩
  let l₁ : Clocked := ⟨⟨0, 86400, 86400, 86400, [{ first with util := ⟨[1, 2, 0, 0], 4, 1, 0⟩ }],
    some second⟩, 86400⟩
  let l₂ : Clocked := { l₁ with
    log := { l₁.log with file := some { second with util := ⟨[3, 4, 0, 0], 4, 1, 0⟩ } } }
  have hfirst : Appends smallFiles (fun _ => roomy) l₀ ⟨b₁.toString, 86399, 86399, 86400⟩ l₁ :=
    ⟨by decide, rfl, first, ⟨[1, 2, 0, 0], 4, 1, 0⟩, 2, rfl, rfl, by decide +kernel⟩
  have hsecond : Appends smallFiles (fun _ => roomy) l₁ ⟨b₂.toString, 86400, 86400, 86400⟩ l₂ :=
    ⟨by decide, rfl, second, ⟨[3, 4, 0, 0], 4, 1, 0⟩, 2, rfl, rfl, by decide +kernel⟩
  have hr : Run (fun (p : Pipeline 4) a q =>
      p.Step smallFiles (fun _ => roomy) a q ∧ p.Creates smallFiles [] a)
      ⟨.new 4, none⟩ twoRecords ⟨s₇, some l₂⟩ := by
    refine .cons (t := ⟨s₁, none⟩) ⟨⟨⟨by decide, rfl⟩, rfl⟩, trivial⟩ ?_
    refine .cons (t := ⟨s₂, none⟩) ⟨⟨⟨by decide, rfl⟩, rfl⟩, trivial⟩ ?_
    refine .cons (t := ⟨s₃, some l₀⟩) ⟨⟨⟨rfl, rfl⟩, by decide, ?_⟩, ?_⟩ ?_
    · have hnew : LogFile.new smallFiles 86399 = l₀.log := LogFile.new_eq (by decide)
      rw [hnew]
    · exact List.not_mem_nil
    refine .cons (t := ⟨s₄, some l₀⟩) ⟨⟨⟨by decide, rfl⟩, rfl, rfl⟩, trivial⟩ ?_
    refine .cons (t := ⟨s₅, some l₀⟩) ⟨⟨⟨by decide, rfl⟩, rfl, rfl⟩, trivial⟩ ?_
    refine .cons (t := ⟨s₆, some l₁⟩)
      ⟨⟨⟨by decide, rfl⟩, b₁, l₀, l₁, rfl, rfl, rfl, hfirst⟩, ?_⟩ ?_
    · rintro _ ⟨⟩ _ ⟨⟩
      decide +kernel
    refine .single ⟨⟨⟨by decide, rfl⟩, b₂, l₁, l₂, rfl, rfl, rfl, hsecond⟩, ?_⟩
    rintro _ ⟨⟩ _ ⟨⟩
    decide +kernel
  obtain ⟨created, parts, waiting, hdisk, hrecords, hcontents, -⟩ := records_reach_files hr
  exact ⟨_, created, parts, waiting, hr, by decide +kernel, hdisk, hrecords, hcontents⟩

end RyanNetwork.Logger
