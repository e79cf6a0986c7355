import RyanNetwork.Mysql.MysqlConnPool

/-!
# The recycler's early exit

A pass of `RecycleConnection` stops at the first connection that is not idle for long
enough, since those behind it were refreshed later. Here the steps of the pool are made at
the times of a steady clock, and `AddConnection` may be called at any time, as the
constructor does and not only when the producer's conditions hold.
-/
namespace RyanNetwork.Mysql

open Lib

set_option autoImplicit false

/-- A pool and the time up to which the clock was read. -/
structure TimedPool where
  pool : MysqlConnPool
  now : Int
  deriving DecidableEq, Repr

/-- `add` is a call of `AddConnection`; `locked` is a section under the mutex, left at
`done`. -/
inductive TimedStep where
  | add (now : Int)
  | locked (a : PoolStep) (done : Int)

/-- What the clock shows in a section, in the order in which it is read. -/
def MysqlConnPool.readings (p : MysqlConnPool) : PoolStep → List Int
  | .produce now => [now]
  | .recycle clock => p.connectionQueue.map fun conn => clock conn.id
  | .getConnection => []
  | .giveBack _ now => [now]

namespace TimedPool

/-- The clock does not go back, and only a lent connection is given back. -/
def InTime (s : TimedPool) : TimedStep → Prop
  | .add now => s.now ≤ now
  | .locked a done =>
    s.pool.Enabled a ∧ (s.now :: (s.pool.readings a ++ [done])).Pairwise (· ≤ ·)

instance (s : TimedPool) : DecidablePred s.InTime
  | .add now => inferInstanceAs (Decidable (s.now ≤ now))
  | .locked a done => inferInstanceAs (Decidable
      (s.pool.Enabled a ∧ (s.now :: (s.pool.readings a ++ [done])).Pairwise (· ≤ ·)))

def perform (conf : Conf) (s : TimedPool) : TimedStep → Except Fault TimedPool
  | .add now => do
    let p ← s.pool.addCounted now
    return ⟨p, now⟩
  | .locked a done => do
    let p ← s.pool.perform conf a
    return ⟨p, done⟩

def Step (conf : Conf) (s : TimedPool) (a : TimedStep) (t : TimedPool) : Prop :=
  s.InTime a ∧ s.perform conf a = .ok t

/-- The pool before its constructor. -/
def zeroed (start : Int) : TimedPool := ⟨.zeroed, start⟩

end TimedPool

/-- `min_size_` as the recycler reads it: it is compared as a `size_t`. -/
def Conf.least (conf : Conf) : Nat := SizeT.ofInt conf.minSize

/-- Idle for `max_idle_time_` milliseconds or more. -/
def MysqlConn.Idle (conf : Conf) (conn : MysqlConn) (now : Int) : Prop :=
  conf.maxIdleTime * 1000000 ≤ now - conn.aliveTime

/-- What a pass does to the queue: it takes idle connections from the front, each while
there are more than `min_size_`, and leaves no more than that or none that was idle when
it last tested the front. -/
structure ExactPass (conf : Conf) (clock : Nat → Int) (before after : List MysqlConn) : Prop where
  removed : ∃ removed, before = removed ++ after ∧ ∀ pre conn post,
    removed = pre ++ conn :: post → conn.Idle conf (clock conn.id) ∧
      conf.least < (conn :: post ++ after).length
  exhausted : after.length ≤ conf.least ∨
    ∃ front rest, after = front :: rest ∧ ∀ conn ∈ after, ¬conn.Idle conf (clock front.id)

/-- The queue in the order of the last refreshes, none later than the clock shows. -/
structure Ordered (queue : List MysqlConn) (now : Int) : Prop where
  sorted : (queue.map MysqlConn.aliveTime).Pairwise (· ≤ ·)
  elapsed : ∀ conn ∈ queue, conn.aliveTime ≤ now

namespace Ordered

theorem mono {queue : List MysqlConn} {now later : Int} (h : Ordered queue now)
    (hle : now ≤ later) : Ordered queue later :=
  ⟨h.sorted, fun conn hconn => Int.le_trans (h.elapsed conn hconn) hle⟩

/-- A connection that is refreshed and put at the back. -/
theorem push {queue : List MysqlConn} {now later : Int} (h : Ordered queue now)
    (hle : now ≤ later) (id : Nat) : Ordered (queue ++ [⟨id, later⟩]) later := by
  refine ⟨?_, ?_⟩
  · rw [List.map_append, List.map_singleton, List.pairwise_append]
    refine ⟨h.sorted, List.pairwise_singleton _ _, ?_⟩
    intro time htime last hlast
    obtain ⟨conn, hconn, rfl⟩ := List.mem_map.mp htime
    rw [List.mem_singleton.mp hlast]
    exact Int.le_trans (h.elapsed conn hconn) hle
  · intro conn hconn
    rcases List.mem_append.mp hconn with hold | hnew
    · exact Int.le_trans (h.elapsed conn hold) hle
    · cases List.mem_singleton.mp hnew
      exact Int.le_refl later

theorem of_suffix {queue rest : List MysqlConn} {now : Int} (h : Ordered queue now)
    (hs : rest <:+ queue) : Ordered rest now :=
  ⟨h.sorted.sublist (hs.sublist.map _), fun conn hconn => h.elapsed conn (hs.subset hconn)⟩

end Ordered

/-- The comparison of the recycler, in nanoseconds. -/
theorem MysqlConn.getAliveTime_ge_iff {conf : Conf} {conn : MysqlConn} {now : Int}
    (h : conn.aliveTime ≤ now) :
    conf.maxIdleTime ≤ conn.getAliveTime now ↔ conn.Idle conf now := by
  unfold MysqlConn.getAliveTime MysqlConn.Idle
  rw [Int.tdiv_eq_ediv_of_nonneg (by omega), Int.le_ediv_iff_mul_le (by decide)]

theorem MysqlConnPool.recycleLoop_suffix (conf : Conf) (clock : Nat → Int)
    (queue : List MysqlConn) (size : Int) :
    (recycleLoop conf clock queue size).1 <:+ queue := by
  induction queue generalizing size with
  | nil => exact List.suffix_refl _
  | cons conn queue ih =>
    rw [recycleLoop]
    split
    · split
      · exact (ih (size - 1)).trans (List.suffix_cons conn queue)
      · exact List.suffix_refl _
    · exact List.suffix_refl _

/-- The loop over a queue in order, at times that do not go back. -/
theorem MysqlConnPool.recycleLoop_exact {conf : Conf} {clock : Nat → Int}
    {queue : List MysqlConn} {now : Int} (hq : Ordered queue now)
    (ht : (now :: queue.map fun conn => clock conn.id).Pairwise (· ≤ ·)) (size : Int) :
    ExactPass conf clock queue (recycleLoop conf clock queue size).1 := by
  induction queue generalizing now size with
  | nil =>
    refine ⟨⟨[], rfl, ?_⟩, Or.inl (Nat.zero_le _)⟩
    intro pre conn post hsplit
    simp at hsplit
  | cons conn queue ih =>
    have hreading : now ≤ clock conn.id := List.rel_of_pairwise_cons ht List.mem_cons_self
    have helapsed := hq.elapsed conn List.mem_cons_self
    have hnone : ∀ pre conn' post, [] = pre ++ conn' :: post →
        conn'.Idle conf (clock conn'.id) ∧
          conf.least < (conn' :: post ++ conn :: queue).length := by
      intro pre conn' post hsplit
      simp at hsplit
    rw [recycleLoop]
    split
    · rename_i hmore
      split
      · rename_i hidle
        have hrest : Ordered queue (clock conn.id) :=
          (hq.of_suffix (List.suffix_cons conn queue)).mono hreading
        obtain ⟨⟨removed, hsplit, hremoved⟩, hexhausted⟩ := ih hrest ht.of_cons (size - 1)
        refine ⟨⟨conn :: removed, by rw [List.cons_append, ← hsplit], ?_⟩, hexhausted⟩
        intro pre conn' post hpre
        cases pre with
        | nil =>
          cases hpre
          refine ⟨(conn.getAliveTime_ge_iff (Int.le_trans helapsed hreading)).mp hidle, ?_⟩
          rwa [List.cons_append, ← hsplit]
        | cons first pre =>
          cases hpre
          exact hremoved pre conn' post rfl
      · rename_i hyoung
        refine ⟨⟨[], rfl, hnone⟩, Or.inr ⟨conn, queue, rfl, ?_⟩⟩
        rw [conn.getAliveTime_ge_iff (Int.le_trans helapsed hreading)] at hyoung
        intro conn' hconn' hidle
        have hle : conn.aliveTime ≤ conn'.aliveTime := by
          rcases List.mem_cons.mp hconn' with rfl | hbehind
          · exact Int.le_refl _
          · exact List.rel_of_pairwise_cons hq.sorted (List.mem_map_of_mem hbehind)
        unfold MysqlConn.Idle at hyoung hidle
        omega
    · rename_i hfew
      exact ⟨⟨[], rfl, hnone⟩, Or.inl (Nat.le_of_not_lt hfew)⟩

namespace TimedPool

variable {conf : Conf} {s t : TimedPool}

theorem addCounted_ordered {p q : MysqlConnPool} {now later : Int}
    (h : Ordered p.connectionQueue now) (hle : now ≤ later) (hadd : p.addCounted later = .ok q) :
    Ordered q.connectionQueue later := by
  rw [MysqlConnPool.addCounted_ok hadd]
  exact h.push hle p.created

/-- Every section keeps the order of the queue. -/
theorem locked_ordered {p q : MysqlConnPool} {a : PoolStep} {now done : Int}
    (h : Ordered p.connectionQueue now)
    (ht : (now :: (p.readings a ++ [done])).Pairwise (· ≤ ·)) (hstep : p.perform conf a = .ok q) :
    Ordered q.connectionQueue done := by
  have hdone : now ≤ done :=
    List.rel_of_pairwise_cons ht (List.mem_append_right _ List.mem_cons_self)
  cases a with
  | produce later =>
    have hlater : now ≤ later := List.rel_of_pairwise_cons ht List.mem_cons_self
    have hleft : later ≤ done := List.rel_of_pairwise_cons ht.of_cons List.mem_cons_self
    rcases MysqlConnPool.produceConnection_cases hstep with ⟨-, -, hadd⟩ | ⟨-, rfl⟩
    · exact (addCounted_ordered h hlater hadd).mono hleft
    · exact h.mono hdone
  | recycle clock =>
    cases hstep
    exact (h.of_suffix (MysqlConnPool.recycleLoop_suffix conf clock _ _)).mono hdone
  | getConnection =>
    cases hstep
    unfold MysqlConnPool.getConnection
    split
    · exact h.mono hdone
    · rename_i conn queue hqueue
      rw [hqueue] at h
      exact (h.of_suffix (List.suffix_cons conn queue)).mono hdone
  | giveBack conn later =>
    cases hstep
    have hlater : now ≤ later := List.rel_of_pairwise_cons ht List.mem_cons_self
    have hleft : later ≤ done := List.rel_of_pairwise_cons ht.of_cons List.mem_cons_self
    exact (h.push hlater conn.id).mono hleft

theorem step_ordered {a : TimedStep} (h : Ordered s.pool.connectionQueue s.now)
    (hstep : Step conf s a t) : Ordered t.pool.connectionQueue t.now := by
  obtain ⟨ht, hstep⟩ := hstep
  cases a with
  | add now =>
    obtain ⟨p, hp, hstep⟩ := bind_ok hstep
    cases hstep
    exact addCounted_ordered h ht hp
  | locked a done =>
    obtain ⟨p, hp, hstep⟩ := bind_ok hstep
    cases hstep
    exact locked_ordered h ht.2 hp

/-- The constructor's loop is a run of calls of `AddConnection`. -/
theorem fill_run {clock : Nat → Int} (hclock : ∀ i j, i ≤ j → clock i ≤ clock j) {n : Nat}
    {p q : MysqlConnPool} {now : Int} (hnow : now ≤ clock p.created)
    (h : p.fill clock n = .ok q) : ∃ steps later, Run (Step conf) ⟨p, now⟩ steps ⟨q, later⟩ := by
  induction n generalizing p now with
  | zero =>
    cases h
    exact ⟨[], now, .nil _⟩
  | succ n ih =>
    obtain ⟨p', hadd, h⟩ := bind_ok h
    have hnext : clock p.created ≤ clock p'.created := by
      rw [MysqlConnPool.addCounted_ok hadd]
      exact hclock _ _ (Nat.le_succ _)
    obtain ⟨steps, later, hrun⟩ := ih hnext h
    have hstep : Step conf ⟨p, now⟩ (.add (clock p.created)) ⟨p', clock p.created⟩ := by
      refine ⟨hnow, ?_⟩
      unfold perform
      dsimp only
      rw [hadd]
      rfl
    exact ⟨_, later, .cons hstep hrun⟩

/-- In every run, with the constructor's calls of `AddConnection` at its beginning, the
connections in the queue are in the order of their last refreshes, and every pass of the
recycler is exact; a `min_size_` that is not negative is compared as it is. -/
theorem recycler_exact {start : Int} {steps : List TimedStep}
    (hr : Run (Step conf) (zeroed start) steps s) :
    (s.pool.connectionQueue.map MysqlConn.aliveTime).Pairwise (· ≤ ·) ∧
      (∀ clock done t, Step conf s (.locked (.recycle clock) done) t →
        ExactPass conf clock s.pool.connectionQueue t.pool.connectionQueue) ∧
      (0 ≤ conf.minSize → conf.minSize < 2 ^ 31 → (conf.least : Int) = conf.minSize) := by
  have hzero : Ordered (zeroed start).pool.connectionQueue (zeroed start).now :=
    ⟨List.Pairwise.nil, fun conn hconn => absurd hconn List.not_mem_nil⟩
  have hs : Ordered s.pool.connectionQueue s.now := by
    refine hr.invariant (P := fun s => Ordered s.pool.connectionQueue s.now) ?_ hzero
    intro s a t h hstep
    exact step_ordered h hstep
  refine ⟨hs.sorted, ?_, fun hmin hint => SizeT.ofInt_exact hmin (by omega)⟩
  intro clock done t hstep
  obtain ⟨⟨-, ht⟩, hstep⟩ := hstep
  cases hstep
  have hreadings := ht.sublist (List.Sublist.cons_cons s.now (List.sublist_append_left _ [done]))
  exact MysqlConnPool.recycleLoop_exact hs hreadings s.pool.currentSize

/-- Two connections, of which the older is lent and given back: a pass that finds both idle
removes the one that stayed in the queue. -/
theorem recycler_exact_returned : ∃ s t,
    Run (Step ⟨1, 3, 1, by decide⟩) (zeroed 0) [.add 0, .add 10, .locked .getConnection 10,
      .locked (.giveBack ⟨0, 0⟩ 20) 20] s ∧
    s.pool.connectionQueue = [⟨1, 10⟩, ⟨0, 20⟩] ∧
    Step ⟨1, 3, 1, by decide⟩ s (.locked (.recycle fun _ => 2000000) 2000000) t ∧
    t.pool.connectionQueue = [⟨0, 20⟩] ∧
    ExactPass ⟨1, 3, 1, by decide⟩ (fun _ => 2000000) s.pool.connectionQueue
      t.pool.connectionQueue := by
  have hrun : Run (Step ⟨1, 3, 1, by decide⟩) (zeroed 0) [.add 0, .add 10,
      .locked .getConnection 10, .locked (.giveBack ⟨0, 0⟩ 20) 20]
      ⟨⟨4, [⟨1, 10⟩, ⟨0, 20⟩], [], 2⟩, 20⟩ := Run.of_exec (by decide +kernel)
  have hpass : Step ⟨1, 3, 1, by decide⟩ ⟨⟨4, [⟨1, 10⟩, ⟨0, 20⟩], [], 2⟩, 20⟩
      (.locked (.recycle fun _ => 2000000) 2000000) ⟨⟨3, [⟨0, 20⟩], [], 2⟩, 2000000⟩ :=
    ⟨by decide +kernel, by decide +kernel⟩
  exact ⟨_, _, hrun, rfl, hpass, rfl, (recycler_exact hrun).2.1 _ _ _ hpass⟩

end TimedPool

end RyanNetwork.Mysql
