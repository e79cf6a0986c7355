import RyanNetwork.Lib.Outcome
import RyanNetwork.Lib.Runs
import RyanNetwork.Lib.SizeT

/-!
# `MysqlConnPool`

The pool keeps idle connections in a queue; a borrower's `shared_ptr` puts its connection
back when it is dropped. Each section under the mutex is one step: of the producer, of the
recycler, of `GetConnection` and of the deleter of a lent connection. A thread that finds
its condition false waits again, which changes nothing here.
-/
namespace RyanNetwork.Mysql

open Lib

set_option autoImplicit false

/-- `overflow`: `current_size_` left the range of `int`. -/
inductive Fault where
  | overflow
  deriving DecidableEq, Repr

/-- What `ParseJsonFile` reads of the sizes and times. -/
structure Conf where
  minSize : Int
  maxSize : Int
  maxIdleTime : Int
  ordered : minSize ≤ maxSize

/-- A connection and the time of its last `RefreshAliveTime`, in nanoseconds. `id` counts
the objects in the order in which they were made. -/
structure MysqlConn where
  id : Nat
  aliveTime : Int
  deriving DecidableEq, Repr

/-- `GetAliveTime`, in milliseconds. -/
def MysqlConn.getAliveTime (conn : MysqlConn) (now : Int) : Int :=
  (now - conn.aliveTime).tdiv 1000000

/-- `lent` are the connections behind a `shared_ptr`, `created` the number of connections
ever made. -/
structure MysqlConnPool where
  currentSize : Int
  connectionQueue : List MysqlConn
  lent : List MysqlConn
  created : Nat
  deriving DecidableEq, Repr

/-- `current_size_++`. -/
def increment (size : Int) : Except Fault Int :=
  if size + 1 < 2 ^ 31 then .ok (size + 1) else .error .overflow

namespace MysqlConnPool

def addConnection (p : MysqlConnPool) (now : Int) : Except Fault MysqlConnPool := do
  let size ← increment p.currentSize
  return { p with
    connectionQueue := p.connectionQueue ++ [⟨p.created, now⟩]
    created := p.created + 1
    currentSize := size }

/-- `AddConnection(); current_size_++;`, as the constructor and the producer have it. -/
def addCounted (p : MysqlConnPool) (now : Int) : Except Fault MysqlConnPool := do
  let p ← p.addConnection now
  let size ← increment p.currentSize
  return { p with currentSize := size }

/-- The loop of the constructor, with the times at which it makes the connections. -/
def fill (clock : Nat → Int) : Nat → MysqlConnPool → Except Fault MysqlConnPool
  | 0, p => .ok p
  | n + 1, p => do
    let p ← p.addCounted (clock p.created)
    fill clock n p

/-- The static pool before its constructor. -/
def zeroed : MysqlConnPool := ⟨0, [], [], 0⟩

/-- `MysqlConnPool()`. -/
def new (conf : Conf) (clock : Nat → Int) : Except Fault MysqlConnPool :=
  zeroed.fill clock conf.minSize.toNat

/-- The section of `ProduceConnection`, which waits while there are idle connections. -/
def produceConnection (conf : Conf) (p : MysqlConnPool) (now : Int) :
    Except Fault MysqlConnPool :=
  if !p.connectionQueue.isEmpty then .ok p
  else if p.currentSize < conf.maxSize then p.addCounted now
  else .ok p

/-- The loop of `RecycleConnection`; `clock` is read once for each connection looked at. -/
def recycleLoop (conf : Conf) (clock : Nat → Int) : List MysqlConn → Int → List MysqlConn × Int
  | [], size => ([], size)
  | conn :: queue, size =>
    if SizeT.ofInt conf.minSize < (conn :: queue).length then
      if conf.maxIdleTime ≤ conn.getAliveTime (clock conn.id) then
        recycleLoop conf clock queue (size - 1)
      else (conn :: queue, size)
    else (conn :: queue, size)

def recycleConnection (conf : Conf) (p : MysqlConnPool) (clock : Nat → Int) : MysqlConnPool :=
  let (queue, size) := recycleLoop conf clock p.connectionQueue p.currentSize
  { p with connectionQueue := queue, currentSize := size }

/-- The section of `GetConnection`, which waits while there is no idle connection. -/
def getConnection (p : MysqlConnPool) : MysqlConnPool :=
  match p.connectionQueue with
  | [] => p
  | conn :: queue => { p with connectionQueue := queue, lent := conn :: p.lent }

/-- The deleter of a lent connection. -/
def giveBack (p : MysqlConnPool) (conn : MysqlConn) (now : Int) : MysqlConnPool :=
  { p with
    lent := p.lent.erase conn
    connectionQueue := p.connectionQueue ++ [{ conn with aliveTime := now }] }

/-- The connections that exist. -/
def existing (p : MysqlConnPool) : Nat := p.connectionQueue.length + p.lent.length

end MysqlConnPool

inductive PoolStep where
  | produce (now : Int)
  | recycle (clock : Nat → Int)
  | getConnection
  | giveBack (conn : MysqlConn) (now : Int)

namespace MysqlConnPool

def perform (conf : Conf) (p : MysqlConnPool) : PoolStep → Except Fault MysqlConnPool
  | .produce now => p.produceConnection conf now
  | .recycle clock => .ok (p.recycleConnection conf clock)
  | .getConnection => .ok p.getConnection
  | .giveBack conn now => .ok (p.giveBack conn now)

/-- Only a lent connection is given back. -/
def Enabled (p : MysqlConnPool) : PoolStep → Prop
  | .giveBack conn _ => conn ∈ p.lent
  | _ => True

instance (p : MysqlConnPool) : DecidablePred p.Enabled
  | .giveBack conn _ => inferInstanceAs (Decidable (conn ∈ p.lent))
  | .produce _ => isTrue trivial
  | .recycle _ => isTrue trivial
  | .getConnection => isTrue trivial

def Step (conf : Conf) (p : MysqlConnPool) (a : PoolStep) (q : MysqlConnPool) : Prop :=
  p.Enabled a ∧ p.perform conf a = .ok q

/-! ## The counter -/

/-- Every connection ever made is counted once more than it should be; no identity occurs
twice. -/
structure Counted (p : MysqlConnPool) : Prop where
  currentSize : p.currentSize = p.existing + p.created
  made : p.existing ≤ p.created
  distinct : ((p.connectionQueue ++ p.lent).map MysqlConn.id).Nodup
  fresh : ∀ conn ∈ p.connectionQueue ++ p.lent, conn.id < p.created

/-- What the pool promises about its connections. -/
structure Accounted (conf : Conf) (p : MysqlConnPool) : Prop where
  counts : p.currentSize = p.existing
  bounded : (p.existing : Int) ≤ conf.maxSize
  separate : ∀ conn ∈ p.connectionQueue, ∀ conn' ∈ p.lent, conn.id ≠ conn'.id
  produces : p.connectionQueue = [] → (p.existing : Int) < conf.maxSize → ∀ now,
    ∃ q, p.produceConnection conf now = .ok q ∧ q.connectionQueue = [⟨p.created, now⟩]

theorem increment_ok {size size' : Int} (h : increment size = .ok size') : size' = size + 1 := by
  unfold increment at h
  split at h
  · exact (Except.ok.inj h).symm
  · cases h

theorem addCounted_ok {p q : MysqlConnPool} {now : Int} (h : p.addCounted now = .ok q) :
    q = { p with
      connectionQueue := p.connectionQueue ++ [⟨p.created, now⟩]
      created := p.created + 1
      currentSize := p.currentSize + 2 } := by
  obtain ⟨p', hp', h⟩ := bind_ok h
  obtain ⟨size, hsize, hp'⟩ := bind_ok hp'
  cases hp'
  obtain ⟨size', hsize', h⟩ := bind_ok h
  cases h
  rw [increment_ok hsize', increment_ok hsize, Int.add_assoc]
  rfl

theorem addCounted_counted {p q : MysqlConnPool} {now : Int} (hp : Counted p)
    (h : p.addCounted now = .ok q) : Counted q := by
  cases addCounted_ok h
  have hids := hp.distinct
  have hmove : ((p.connectionQueue ++ [MysqlConn.mk p.created now]) ++ p.lent).Perm
      (MysqlConn.mk p.created now :: (p.connectionQueue ++ p.lent)) := by
    rw [List.append_assoc]
    exact List.perm_middle
  refine ⟨?_, ?_, ?_, ?_⟩
  · have hsize := hp.currentSize
    simp only [existing, List.length_append, List.length_singleton] at hsize ⊢
    omega
  · have hmade := hp.made
    simp only [existing, List.length_append, List.length_singleton] at hmade ⊢
    omega
  · rw [(hmove.map MysqlConn.id).nodup_iff, List.map_cons, List.nodup_cons]
    refine ⟨?_, hids⟩
    intro hmem
    obtain ⟨conn, hconn, hid⟩ := List.mem_map.mp hmem
    have hlt := hp.fresh conn hconn
    rw [hid] at hlt
    exact Nat.lt_irrefl _ hlt
  · intro conn hconn
    dsimp only
    rcases List.mem_cons.mp (hmove.mem_iff.mp hconn) with rfl | hold
    · exact Nat.lt_succ_self _
    · have hlt := hp.fresh conn hold
      omega

theorem recycleLoop_spec (conf : Conf) (clock : Nat → Int) (queue : List MysqlConn) (size : Int) :
    (recycleLoop conf clock queue size).1.Sublist queue ∧
      (recycleLoop conf clock queue size).2 - (recycleLoop conf clock queue size).1.length =
        size - queue.length := by
  induction queue generalizing size with
  | nil => exact ⟨List.Sublist.refl _, rfl⟩
  | cons conn queue ih =>
    rw [recycleLoop]
    split
    · split
      · obtain ⟨hsub, hsize⟩ := ih (size - 1)
        refine ⟨hsub.cons conn, ?_⟩
        rw [hsize, List.length_cons]
        omega
      · exact ⟨List.Sublist.refl _, rfl⟩
    · exact ⟨List.Sublist.refl _, rfl⟩

theorem recycleConnection_counted {conf : Conf} {p : MysqlConnPool} {clock : Nat → Int}
    (hp : Counted p) : Counted (p.recycleConnection conf clock) := by
  obtain ⟨hsub, hsize⟩ := recycleLoop_spec conf clock p.connectionQueue p.currentSize
  have hall := hsub.append (List.Sublist.refl p.lent)
  have hlen := hsub.length_le
  have hold := hp.currentSize
  have hmade := hp.made
  refine ⟨?_, ?_, (hall.map MysqlConn.id).nodup hp.distinct, ?_⟩
  · simp only [recycleConnection, existing] at hold ⊢
    omega
  · simp only [recycleConnection, existing] at hmade ⊢
    omega
  · intro conn hconn
    exact hp.fresh conn (hall.subset hconn)

/-- A step that only moves connections between the queue and the borrowers. -/
theorem counted_of_perm {p q : MysqlConnPool} (hp : Counted p)
    (hperm : ((q.connectionQueue ++ q.lent).map MysqlConn.id).Perm
      ((p.connectionQueue ++ p.lent).map MysqlConn.id))
    (hcreated : q.created = p.created) (hsize : q.currentSize = p.currentSize) : Counted q := by
  have hlen : q.existing = p.existing := by
    have h := hperm.length_eq
    simp only [List.length_map, List.length_append] at h
    exact h
  refine ⟨?_, ?_, hperm.nodup_iff.mpr hp.distinct, ?_⟩
  · rw [hsize, hlen, hcreated, hp.currentSize]
  · rw [hlen, hcreated]
    exact hp.made
  · intro conn hconn
    have hmem := hperm.mem_iff.mp (List.mem_map_of_mem hconn)
    obtain ⟨conn', hconn', hid⟩ := List.mem_map.mp hmem
    rw [hcreated, ← hid]
    exact hp.fresh conn' hconn'

theorem getConnection_counted {p : MysqlConnPool} (hp : Counted p) : Counted p.getConnection := by
  unfold getConnection
  split
  · exact hp
  · rename_i conn queue hq
    refine counted_of_perm hp (q := ⟨_, queue, conn :: p.lent, _⟩) ?_ rfl rfl
    dsimp only
    rw [hq]
    exact List.perm_middle.map _

theorem giveBack_counted {p : MysqlConnPool} {conn : MysqlConn} {now : Int} (hp : Counted p)
    (hmem : conn ∈ p.lent) : Counted (p.giveBack conn now) := by
  refine counted_of_perm hp (q := p.giveBack conn now) ?_ rfl rfl
  have herase : (conn :: p.lent.erase conn).Perm p.lent := (List.perm_cons_erase hmem).symm
  have hids := (herase.map MysqlConn.id).append_left (p.connectionQueue.map MysqlConn.id)
  simpa only [giveBack, List.map_append, List.map_cons, List.map_nil, List.append_assoc,
    List.cons_append, List.nil_append] using hids

theorem produceConnection_cases {conf : Conf} {p q : MysqlConnPool} {now : Int}
    (h : p.produceConnection conf now = .ok q) :
    (p.connectionQueue = [] ∧ p.currentSize < conf.maxSize ∧ p.addCounted now = .ok q) ∨
      (¬(p.connectionQueue = [] ∧ p.currentSize < conf.maxSize) ∧ q = p) := by
  unfold produceConnection at h
  split at h
  · rename_i hne
    cases h
    refine Or.inr ⟨?_, rfl⟩
    rintro ⟨hnil, -⟩
    rw [hnil] at hne
    cases hne
  · rename_i hempty
    have hnil : p.connectionQueue = [] := by simpa using hempty
    split at h
    · rename_i hlt
      exact Or.inl ⟨hnil, hlt, h⟩
    · rename_i hge
      cases h
      exact Or.inr ⟨fun hboth => hge hboth.2, rfl⟩

theorem step_counted {conf : Conf} {p q : MysqlConnPool} {a : PoolStep} (hp : Counted p)
    (h : Step conf p a q) : Counted q := by
  obtain ⟨henabled, h⟩ := h
  cases a with
  | produce now =>
    rcases produceConnection_cases h with ⟨-, -, hadd⟩ | ⟨-, rfl⟩
    · exact addCounted_counted hp hadd
    · exact hp
  | recycle clock =>
    cases h
    exact recycleConnection_counted hp
  | getConnection =>
    cases h
    exact getConnection_counted hp
  | giveBack conn now =>
    cases h
    exact giveBack_counted hp henabled

theorem fill_counted {clock : Nat → Int} {n : Nat} {p q : MysqlConnPool} (hp : Counted p)
    (h : p.fill clock n = .ok q) : Counted q ∧ q.created = p.created + n := by
  induction n generalizing p with
  | zero =>
    cases h
    exact ⟨hp, rfl⟩
  | succ n ih =>
    obtain ⟨p', hp', h⟩ := bind_ok h
    obtain ⟨hq, hcreated⟩ := ih (addCounted_counted hp hp') h
    refine ⟨hq, ?_⟩
    rw [hcreated, addCounted_ok hp']
    dsimp only
    omega

theorem new_counted {conf : Conf} {clock : Nat → Int} {p : MysqlConnPool}
    (h : new conf clock = .ok p) : Counted p ∧ p.created = conf.minSize.toNat := by
  have hzero : Counted zeroed := ⟨rfl, Nat.le_refl _, List.nodup_nil, by simp [zeroed]⟩
  obtain ⟨hp, hcreated⟩ := fill_counted hzero h
  exact ⟨hp, hcreated.trans (Nat.zero_add _)⟩

/-! ## Which runs make a connection -/

/-- A step of the producer makes the first connection if it may. -/
theorem step_created {conf : Conf} {p q : MysqlConnPool} {a : PoolStep} (hp : Counted p)
    (h : Step conf p a q) : p.created ≤ q.created ∧
      (p.created = 0 → (q.created = 0 ↔ conf.maxSize ≤ 0 ∨ ∀ now, a ≠ .produce now)) := by
  obtain ⟨-, h⟩ := h
  cases a with
  | produce now =>
    have hnow : ¬∀ now', PoolStep.produce now ≠ .produce now' := fun hall => hall now rfl
    rcases produceConnection_cases h with ⟨-, hlt, hadd⟩ | ⟨hno, rfl⟩
    · rw [addCounted_ok hadd]
      refine ⟨Nat.le_succ _, fun hzero => ?_⟩
      have hsize := hp.currentSize
      simp only [hnow, or_false, Nat.succ_ne_zero, false_iff]
      omega
    · refine ⟨Nat.le_refl _, fun hzero => ?_⟩
      have hsize := hp.currentSize
      have hmade := hp.made
      have hnil : q.connectionQueue = [] := by
        apply List.eq_nil_of_length_eq_zero
        unfold existing at hmade
        omega
      have hmax : conf.maxSize ≤ 0 := by
        by_contra hpos
        exact hno ⟨hnil, by omega⟩
      simp only [hzero, hmax, true_or]
  | recycle clock =>
    cases h
    exact ⟨Nat.le_refl _, fun hzero => by simp [recycleConnection, hzero]⟩
  | getConnection =>
    cases h
    have hsame : p.getConnection.created = p.created := by
      unfold getConnection
      split <;> rfl
    rw [hsame]
    exact ⟨Nat.le_refl _, fun hzero => by simp [hzero]⟩
  | giveBack conn now =>
    cases h
    exact ⟨Nat.le_refl _, fun hzero => by simp [giveBack, hzero]⟩

theorem run_created {conf : Conf} {p q : MysqlConnPool} {steps : List PoolStep} (hp : Counted p)
    (h : Run (Step conf) p steps q) : Counted q ∧ p.created ≤ q.created ∧
      (p.created = 0 → (q.created = 0 ↔ conf.maxSize ≤ 0 ∨ ∀ now, .produce now ∉ steps)) := by
  induction h with
  | nil p => exact ⟨hp, Nat.le_refl _, fun hzero => by simp [hzero]⟩
  | @cons p p' q a as hstep _ ih =>
    obtain ⟨hle, hfirst⟩ := step_created hp hstep
    obtain ⟨hq, hle', hrest⟩ := ih (step_counted hp hstep)
    refine ⟨hq, Nat.le_trans hle hle', fun hzero => ?_⟩
    have hsplit : (∀ now, PoolStep.produce now ∉ a :: as) ↔
        (∀ now, a ≠ .produce now) ∧ ∀ now, PoolStep.produce now ∉ as := by
      simp only [List.mem_cons, not_or, forall_and, Ne, eq_comm (a := a)]
    rw [hsplit]
    by_cases hmid : p'.created = 0
    · have hone := (hfirst hzero).mp hmid
      rw [hrest hmid, or_and_left]
      exact (and_iff_right hone).symm
    · have hone := mt (hfirst hzero).mpr hmid
      have hlast : q.created ≠ 0 := by omega
      rw [or_and_left]
      simp only [hlast, hone, false_and]

/-- The promises hold exactly while no connection was ever made. -/
theorem accounted_iff {conf : Conf} {p : MysqlConnPool} (hp : Counted p) :
    Accounted conf p ↔ 0 ≤ conf.maxSize ∧ p.created = 0 := by
  have hsize := hp.currentSize
  have hmade := hp.made
  constructor
  · intro h
    have hcounts := h.counts
    have hbounded := h.bounded
    omega
  · rintro ⟨hmax, hzero⟩
    have hnone : p.existing = 0 := by omega
    have hnil : p.connectionQueue = [] := by
      apply List.eq_nil_of_length_eq_zero
      unfold existing at hnone
      omega
    refine ⟨by omega, by omega, ?_, ?_⟩
    · rw [hnil]
      exact fun conn hconn => absurd hconn List.not_mem_nil
    · intro _ hlt now
      have hadd : p.addCounted now = .ok ⟨p.currentSize + 1 + 1,
          p.connectionQueue ++ [⟨p.created, now⟩], p.lent, p.created + 1⟩ := by
        have h1 : p.currentSize + 1 < 2 ^ 31 := by omega
        have h2 : p.currentSize + 1 + 1 < 2 ^ 31 := by omega
        simp only [addCounted, addConnection, increment, if_pos h1]
        simp only [bind, Except.bind, pure, Except.pure, if_pos h2]
      have hproduce : p.produceConnection conf now = p.addCounted now := by
        rw [produceConnection, if_neg (by simp [hnil]), if_pos (by omega)]
      rw [hnil] at hadd
      exact ⟨_, hproduce.trans hadd, rfl⟩

/-- In every run of a constructed pool, the accounting is right in the state reached exactly if
the constructor made no connection and the producer, if it may make one, has not run yet. -/
theorem pool_accounted_iff {conf : Conf} {clock : Nat → Int} {p q : MysqlConnPool}
    {steps : List PoolStep} (h₀ : new conf clock = .ok p) (hr : Run (Step conf) p steps q) :
    Accounted conf q ↔ 0 ≤ conf.maxSize ∧ conf.minSize ≤ 0 ∧
      (conf.maxSize ≤ 0 ∨ ∀ now, .produce now ∉ steps) := by
  obtain ⟨hp, hcreated⟩ := new_counted h₀
  obtain ⟨hq, hle, hzero⟩ := run_created hp hr
  rw [accounted_iff hq]
  by_cases hmin : conf.minSize ≤ 0
  · have hnone : p.created = 0 := by omega
    rw [hzero hnone]
    simp only [hmin, true_and]
  · have hsome : q.created ≠ 0 := by omega
    simp only [hmin, hsome, false_and, and_false]

/-- A pool that starts empty, before its producer has run. -/
theorem empty_pool_accounted : ∃ p q,
    new ⟨0, 2, 60000, by decide⟩ (fun _ => 0) = .ok p ∧
    Run (Step ⟨0, 2, 60000, by decide⟩) p [.getConnection, .recycle fun _ => 0] q ∧
    Accounted ⟨0, 2, 60000, by decide⟩ q := by
  have h₀ : new ⟨0, 2, 60000, by decide⟩ (fun _ => 0) = .ok zeroed := rfl
  have hr : Run (Step ⟨0, 2, 60000, by decide⟩) zeroed [.getConnection, .recycle fun _ => 0]
      zeroed := .cons (t := zeroed) ⟨trivial, rfl⟩ (.single ⟨trivial, rfl⟩)
  refine ⟨zeroed, zeroed, h₀, hr, (pool_accounted_iff h₀ hr).mpr ⟨by decide, by decide, ?_⟩⟩
  exact Or.inr fun now => by simp

/-- Two connections are made and counted as four: when both are lent, the producer of a pool
for three makes no other. -/
theorem pool_of_three_stops_at_two : ∃ p q,
    new ⟨2, 3, 60000, by decide⟩ (fun _ => 0) = .ok p ∧ p.currentSize = 4 ∧ p.existing = 2 ∧
    Run (Step ⟨2, 3, 60000, by decide⟩) p [.getConnection, .getConnection] q ∧
    q.connectionQueue = [] ∧ q.existing = 2 ∧ q.currentSize = 4 ∧
    q.produceConnection ⟨2, 3, 60000, by decide⟩ 0 = .ok q ∧
    ¬Accounted ⟨2, 3, 60000, by decide⟩ q := by
  refine ⟨⟨4, [⟨0, 0⟩, ⟨1, 0⟩], [], 2⟩, ⟨4, [], [⟨1, 0⟩, ⟨0, 0⟩], 2⟩, by decide, rfl, rfl,
    .cons (t := ⟨4, [⟨1, 0⟩], [⟨0, 0⟩], 2⟩) ⟨trivial, rfl⟩ (.single ⟨trivial, rfl⟩), rfl, rfl,
    rfl, by decide, ?_⟩
  intro h
  exact absurd h.counts (by decide)

end MysqlConnPool

end RyanNetwork.Mysql
