import RyanNetwork.Tcp.Table
import Mathlib.Data.Int.CardIntervalMod

/-!
# `EventLoopThreadPool::GetNextLoop` under a running server

The pool hands out its loops in turn. Nothing but `NewConnection` asks for a loop and no
connection changes its loop later, so whatever else the loops do in between, the
connections are spread evenly.
-/
namespace RyanNetwork.Tcp.Balance

open Lib ServerView Table
open World (Call Answers)

set_option autoImplicit false

/-- The step leaves the pool and the loop of each connection alone. -/
structure SameLoops (s s' : TcpServer) : Prop where
  loops : s'.loops = s.loops
  next : s'.next = s.next
  nextConnId : s'.nextConnId = s.nextConnId
  assigned : ∀ c, (s'.conns c).map Conn.loop = (s.conns c).map Conn.loop

section SameLoops

variable {s s' t : TcpServer} {c l : Nat} {conn : Conn}

theorem SameLoops.refl (s : TcpServer) : SameLoops s s := ⟨rfl, rfl, rfl, fun _ => rfl⟩

theorem SameLoops.trans (h : SameLoops s s') (h' : SameLoops s' t) : SameLoops s t :=
  ⟨h'.loops.trans h.loops, h'.next.trans h.next, h'.nextConnId.trans h.nextConnId,
    fun c => (h'.assigned c).trans (h.assigned c)⟩

theorem sameLoops_store {w : World} (hc : s.conns c = some conn) :
    SameLoops s (s.store c conn w) := by
  refine ⟨rfl, rfl, rfl, fun d => ?_⟩
  by_cases hd : d = c
  · subst hd
    simp [TcpServer.store, hc]
  · simp [TcpServer.store, hd]

theorem sameLoops_removeConnection (s : TcpServer) (l c : Nat) :
    SameLoops s (s.removeConnection l c) := by
  unfold TcpServer.removeConnection TcpServer.removeConnectionInLoop
  split
  · split
    · exact ⟨rfl, rfl, rfl, fun _ => rfl⟩
    · exact SameLoops.refl s
  · exact ⟨rfl, rfl, rfl, fun _ => rfl⟩

theorem sameLoops_runConnection {f : World → Except Fault World}
    (h : s.runConnection l c f = .ok s') : SameLoops s s' := by
  cases hc : s.conns c with
  | none => simp [TcpServer.runConnection, hc] at h
  | some conn =>
    obtain ⟨w, -, rfl⟩ := runConnection_ok hc h
    have hst : SameLoops s (s.store c conn w) := sameLoops_store hc
    split
    · have hrec : SameLoops s ((s.store c conn w).record c l .handleClose) :=
        ⟨hst.loops, hst.next, hst.nextConnId, hst.assigned⟩
      exact hrec.trans (sameLoops_removeConnection _ l c)
    · exact hst

theorem sameLoops_recordedRun {m : Moment} {f : World → Except Fault World}
    (h : (s.record c l m).runConnection l c f = .ok s') : SameLoops s s' := by
  have hr := sameLoops_runConnection h
  exact ⟨hr.loops, hr.next, hr.nextConnId, hr.assigned⟩

theorem sameLoops_runFunctor {answer : WriteResult} {onRun : List Call} {f : LoopFunctor}
    (h : s.runFunctor l answer onRun f = .ok s') : SameLoops s s' := by
  cases f with
  | connectEstablished c =>
    change s.connectEstablished l c onRun = .ok s' at h
    exact sameLoops_recordedRun h
  | removeConnectionInLoop c =>
    cases h
    unfold TcpServer.removeConnectionInLoop
    split
    · exact ⟨rfl, rfl, rfl, fun _ => rfl⟩
    · exact SameLoops.refl s
  | connectDestroyed c =>
    change s.connectDestroyed l c onRun = .ok s' at h
    exact sameLoops_recordedRun h
  | connection c g =>
    change s.runConnection l c (·.runFunctor answer onRun g) = .ok s' at h
    exact sameLoops_runConnection h

end SameLoops

/-- The loop that the connection with number `c` gets: the base loop if there are no others. -/
def loopOf (loops c : Nat) : Nat := if loops = 0 then 0 else (c - 1) % loops + 1

/-- The connections so far have got the loops in turn. -/
structure Dealt (loops : Nat) (s : TcpServer) : Prop where
  pool : s.loops = loops
  first : 1 ≤ s.nextConnId
  next : 0 < s.loops → s.next = (s.nextConnId - 1) % s.loops
  assigned : ∀ c, (s.conns c).map Conn.loop =
    if 1 ≤ c ∧ c < s.nextConnId then some (loopOf s.loops c) else none

section Dealt

variable {s s' : TcpServer} {n : Nat}

theorem dealt_new (listenAddr : InetAddress) (nameArg : List Char) (wc : Bool) (loops : Nat) :
    Dealt loops (TcpServer.new listenAddr nameArg wc loops) := by
  refine ⟨rfl, le_rfl, fun _ => (Nat.zero_mod loops).symm, fun c => ?_⟩
  rw [if_neg]
  · rfl
  · simp only [TcpServer.new]
    omega

theorem Dealt.of_sameLoops (h : Dealt n s) (hs : SameLoops s s') : Dealt n s' := by
  refine ⟨hs.loops.trans h.pool, hs.nextConnId ▸ h.first, ?_, fun c => ?_⟩
  · rw [hs.loops, hs.next, hs.nextConnId]
    exact h.next
  · rw [hs.assigned, hs.loops, hs.nextConnId]
    exact h.assigned c

/-- `GetNextLoop` gives the next connection its loop, and advances. -/
theorem dealt_enterConnection (addr : Nat) (sockfd : Int) (h : Dealt n s) :
    Dealt n (s.enterConnection addr sockfd) := by
  have hfirst := h.first
  refine ⟨h.pool, Nat.le_add_left 1 _, ?_, fun c => ?_⟩
  · intro hpos
    change 0 < s.loops at hpos
    have hnext := h.next hpos
    have hlt : s.next < s.loops := hnext ▸ Nat.mod_lt _ hpos
    have hsucc : s.nextConnId + 1 - 1 = (s.nextConnId - 1) + 1 := by omega
    change s.nextAfter = (s.nextConnId + 1 - 1) % s.loops
    rw [hsucc, ← Nat.mod_add_mod, ← hnext, TcpServer.nextAfter, if_neg (by omega)]
    split
    · have heq : s.next + 1 = s.loops := by omega
      rw [heq, Nat.mod_self]
    · exact (Nat.mod_eq_of_lt (by omega)).symm
  · change ((s.enterConnection addr sockfd).conns c).map Conn.loop =
      if 1 ≤ c ∧ c < s.nextConnId + 1 then some (loopOf s.loops c) else none
    by_cases hc : c = s.nextConnId
    · subst hc
      rw [if_pos (by omega)]
      simp only [TcpServer.enterConnection, Function.update_self, Option.map_some,
        TcpServer.newConn, TcpServer.getNextLoop, loopOf]
      split
      · rfl
      · rw [h.next (by omega)]
    · have hold := h.assigned c
      simp only [TcpServer.enterConnection, Function.update_of_ne hc]
      rw [hold]
      congr 1
      simp only [eq_iff_iff]
      omega

theorem step_dealt {a : ServerStep} (h : Dealt n s) (hs : Step s a s') : Dealt n s' := by
  obtain ⟨hen, hp⟩ := hs
  cases a with
  | newConnection addr sockfd onUp =>
    have he := dealt_enterConnection addr sockfd h
    simp only [perform, TcpServer.newConnection] at hp
    split at hp
    · exact he.of_sameLoops (sameLoops_recordedRun hp)
    · cases hp
      exact ⟨he.pool, he.first, he.next, he.assigned⟩
  | event c revents a =>
    obtain ⟨conn, hc, -⟩ := hen
    simp only [perform, Option.mem_def.mp hc] at hp
    exact h.of_sameLoops (sameLoops_recordedRun hp)
  | functor l answer onRun =>
    cases hq : s.queues l with
    | nil => exact absurd hq hen
    | cons f rest =>
      simp only [perform, hq] at hp
      have hpop : Dealt n (pop s l rest) := ⟨h.pool, h.first, h.next, h.assigned⟩
      exact hpop.of_sameLoops (sameLoops_runFunctor hp)
  | call c call =>
    obtain ⟨conn, hc, -⟩ := hen
    simp only [perform, Option.mem_def.mp hc] at hp
    exact h.of_sameLoops (sameLoops_runConnection hp)
  | callFromOther c call =>
    obtain ⟨conn, hc, -⟩ := hen
    simp only [perform, Option.mem_def.mp hc] at hp
    cases hp
    exact h.of_sameLoops (sameLoops_store hc)

theorem run_dealt {steps : List ServerStep} (hr : Run Step s steps s') (h : Dealt n s) :
    Dealt n s' :=
  hr.invariant (P := Dealt n) (fun _ _ _ hd hs => step_dealt hd hs) h

end Dealt

/-- How many connections the loop has got. -/
def served (s : TcpServer) (l : Nat) : Nat :=
  s.nextConnId.count fun c => (s.conns c).map Conn.loop = some l

theorem served_eq {s : TcpServer} {n l : Nat} (h : Dealt n s) (h1 : 1 ≤ l) (hl : l ≤ n) :
    served s l = (s.nextConnId - 1) / n + if l - 1 < (s.nextConnId - 1) % n then 1 else 0 := by
  have hn : 0 < n := by omega
  have hsplit : s.nextConnId = (s.nextConnId - 1) + 1 := by
    have := h.first
    omega
  have hzero : (s.conns 0).map Conn.loop = none := by
    rw [h.assigned, if_neg (by omega)]
  have hcount : served s l = (s.nextConnId - 1).count (· ≡ l - 1 [MOD n]) := by
    rw [served, hsplit, Nat.count_succ', hzero, if_neg (by simp), Nat.add_zero,
      Nat.count_eq_card_filter_range, Nat.count_eq_card_filter_range]
    congr 1
    refine Finset.filter_congr fun k hk => ?_
    have hk : k < s.nextConnId - 1 := Finset.mem_range.mp hk
    rw [h.assigned, if_pos (by omega), loopOf, h.pool, if_neg (by omega), Nat.add_sub_cancel,
      Option.some.injEq, Nat.ModEq, Nat.mod_eq_of_lt (a := l - 1) (by omega)]
    omega
  rw [hcount, Nat.count_modEq_card _ hn, Nat.mod_eq_of_lt (a := l - 1) (by omega)]

/-- In every run of a server, whatever its loops do and in whatever order connections end:
the `c`-th connection lives on the loop whose turn it was, and any two I/O loops have got
equally many connections, up to one. -/
theorem loops_balanced (listenAddr : InetAddress) (nameArg : List Char) (writeComplete : Bool)
    (loops : Nat) {s : TcpServer} {steps : List ServerStep}
    (hr : Run Step (TcpServer.new listenAddr nameArg writeComplete loops) steps s) :
    (∀ c conn, s.conns c = some conn → conn.loop = loopOf loops c) ∧
      ∀ k l, 1 ≤ k → k ≤ loops → 1 ≤ l → l ≤ loops → served s k ≤ served s l + 1 := by
  have h := run_dealt hr (dealt_new listenAddr nameArg writeComplete loops)
  refine ⟨?_, ?_⟩
  · intro c conn hc
    have ha := h.assigned c
    rw [hc, Option.map_some] at ha
    split at ha
    · rw [h.pool] at ha
      exact Option.some.inj ha
    · cases ha
  · intro k l hk1 hk hl1 hl
    rw [served_eq h hk1 hk, served_eq h hl1 hl]
    split <;> split <;> omega

/-- Two loops and three connections, the first of which is closed in between. -/
theorem three_on_two_loops :
    ∃ s, Run Step (TcpServer.new ⟨127, 0, 0, 1, 8000⟩ ['e', 'c', 'h', 'o'] false 2)
        [.newConnection 1 5 [], .functor 1 (.count 0) [], .newConnection 2 6 [],
          .event 1 .kReadEvent ⟨.received [], .count 0, [], []⟩, .newConnection 3 7 []] s ∧
      (served s 1, served s 2) = (2, 1) ∧ served s 1 ≤ served s 2 + 1 := by
  have hok : (Run.exec Enabled perform
      (TcpServer.new ⟨127, 0, 0, 1, 8000⟩ ['e', 'c', 'h', 'o'] false 2)
      [.newConnection 1 5 [], .functor 1 (.count 0) [], .newConnection 2 6 [],
        .event 1 .kReadEvent ⟨.received [], .count 0, [], []⟩, .newConnection 3 7 []]).map
      (fun s => (served s 1, served s 2)) = some (2, 1) := by decide +kernel
  obtain ⟨s, hs, hq⟩ := Option.map_eq_some_iff.mp hok
  have hr : Run Step _ _ s := Run.of_exec hs
  exact ⟨s, hr, hq, (loops_balanced _ _ _ _ hr).2 1 2 (by decide) (by decide) (by decide)
    (by decide)⟩

end RyanNetwork.Tcp.Balance
