import Mathlib.Data.Nat.Digits.Defs
import RyanNetwork.Lib.Outcome
import RyanNetwork.Tcp.Server

/-!
# One connection's view of a server

What the server knows of one connection: the object, the functors that wait for it
on each loop, its entry in the table and what the log says of it. Connection names
are distinct, so a step for one connection leaves the views of all others alone.
-/
namespace RyanNetwork.Tcp.ServerView

open Lib
open TcpServer (connName)

set_option autoImplicit false

/-! ## Names -/

theorem decimal_injective {m n : Nat} (h : decimal m = decimal n) : m = n := by
  have hm : Nat.ofDigitChars 10 (decimal m) 0 = m := Nat.ofDigitChars_ten_toDigits
  have hn : Nat.ofDigitChars 10 (decimal n) 0 = n := Nat.ofDigitChars_ten_toDigits
  rw [← hm, h, hn]

theorem decimal_length {n k : Nat} (hk : 0 < k) (h : n < 10 ^ k) : (decimal n).length ≤ k :=
  Nat.toDigits_length 10 n k hk h

theorem toIpPort_length (addr : InetAddress) : addr.toIpPort.length ≤ 21 := by
  have ha : (decimal addr.a.toNat).length ≤ 3 :=
    decimal_length (by decide) (Nat.lt_trans addr.a.toNat_lt (by decide))
  have hb : (decimal addr.b.toNat).length ≤ 3 :=
    decimal_length (by decide) (Nat.lt_trans addr.b.toNat_lt (by decide))
  have hc : (decimal addr.c.toNat).length ≤ 3 :=
    decimal_length (by decide) (Nat.lt_trans addr.c.toNat_lt (by decide))
  have hd : (decimal addr.d.toNat).length ≤ 3 :=
    decimal_length (by decide) (Nat.lt_trans addr.d.toNat_lt (by decide))
  have hp : (decimal addr.port.toNat).length ≤ 5 :=
    decimal_length (by decide) (Nat.lt_trans addr.port.toNat_lt (by decide))
  simp only [InetAddress.toIpPort, InetAddress.toIp, List.length_append, List.length_cons]
  omega

/-- The 64 bytes of `buf` hold the whole suffix of a name, so names are distinct. -/
theorem connName_injective {s : TcpServer} {c d : Nat} (hs : s.ipPort.length ≤ 21)
    (hc : c < 2 ^ 31) (hd : d < 2 ^ 31) (h : s.connName c = s.connName d) : c = d := by
  have hfit (n : Nat) (hn : n < 2 ^ 31) : snprintf 64 ('-' :: s.ipPort ++ '#' :: decimal n) =
      '-' :: s.ipPort ++ '#' :: decimal n := by
    have hl := decimal_length (k := 10) (by decide) (Nat.lt_trans hn (by decide))
    refine List.take_of_length_le ?_
    simp only [List.length_append, List.length_cons]
    omega
  unfold connName at h
  rw [hfit c hc, hfit d hd] at h
  have htail := List.append_cancel_left (List.append_cancel_left h)
  exact decimal_injective (List.cons.inj htail).2

/-! ## One connection's view of the server -/

def LoopFunctor.conn : LoopFunctor → Nat
  | .connectEstablished c => c
  | .removeConnectionInLoop c => c
  | .connectDestroyed c => c
  | .connection c _ => c

/-- The three functors that take a connection from one stage to the next. -/
def LoopFunctor.isProtocol : LoopFunctor → Bool
  | .connection _ _ => false
  | _ => true

structure View where
  conn : Option Conn
  queue : Nat → List LoopFunctor
  entry : Option Nat
  log : List LogEntry

def view (s : TcpServer) (c : Nat) : View where
  conn := s.conns c
  queue := fun l => (s.queues l).filter fun f => LoopFunctor.conn f = c
  entry := (s.conns c).bind fun conn => s.connections conn.name
  log := s.log.filter fun e => e.conn = c

/-- What has run for a connection so far. -/
def history (s : TcpServer) (c : Nat) : List Moment := (view s c).log.map (·.moment)

/-- The loop's queue once its first functor was taken. -/
def pop (s : TcpServer) (l : Nat) (rest : List LoopFunctor) : TcpServer :=
  { s with queues := Function.update s.queues l rest }

/-- `connections_.erase(name)`. -/
def erase (s : TcpServer) (name : List Char) : TcpServer :=
  { s with connections := Function.update s.connections name none }

/-- No connection but `d` is called `name`. -/
def Unshared (s : TcpServer) (d : Nat) (name : List Char) : Prop :=
  ∀ c conn, c ≠ d → s.conns c = some conn → conn.name ≠ name

/-- `s'` differs from `s` only in what belongs to connection `d`. -/
structure Touches (s : TcpServer) (d : Nat) (s' : TcpServer) : Prop where
  name : s'.name = s.name
  ipPort : s'.ipPort = s.ipPort
  nextConnId : s'.nextConnId = s.nextConnId
  named : (s'.conns d).map Conn.name = (s.conns d).map Conn.name
  entries : ∀ nm c, s'.connections nm = some c → s.connections nm = some c
  others : ∀ c, c ≠ d → view s' c = view s c

section Touches

variable {s s' : TcpServer} {c d l : Nat}

theorem Touches.trans {t : TcpServer} (h : Touches s d s') (h' : Touches s' d t) :
    Touches s d t := by
  refine ⟨h'.name.trans h.name, h'.ipPort.trans h.ipPort, h'.nextConnId.trans h.nextConnId,
    h'.named.trans h.named, fun nm c he => h.entries nm c (h'.entries nm c he), ?_⟩
  intro c hc
  rw [h'.others c hc, h.others c hc]

theorem Touches.unshared {name : List Char} (h : Touches s d s') (hu : Unshared s d name) :
    Unshared s' d name := by
  intro c conn hc hconn
  have hv : s'.conns c = s.conns c := congrArg View.conn (h.others c hc)
  exact hu c conn hc (hv ▸ hconn)

theorem touches_record (l : Nat) (m : Moment) : Touches s d (s.record d l m) := by
  refine ⟨rfl, rfl, rfl, rfl, fun _ _ => id, fun c hc => ?_⟩
  simp [view, TcpServer.record, Ne.symm hc]

theorem filter_update (c l : Nat) (q : Nat → List LoopFunctor) (fs : List LoopFunctor)
    (h : fs.filter (fun f => LoopFunctor.conn f = c) = (q l).filter fun f => LoopFunctor.conn f = c) :
    (fun k => (Function.update q l fs k).filter fun f => LoopFunctor.conn f = c) =
      fun k => (q k).filter fun f => LoopFunctor.conn f = c := by
  funext k
  by_cases hk : k = l
  · subst hk
    rw [Function.update_self, h]
  · rw [Function.update_of_ne hk]

theorem touches_queueInLoop (f : LoopFunctor) (h : LoopFunctor.conn f = d) :
    Touches s d (s.queueInLoop l f) := by
  refine ⟨rfl, rfl, rfl, rfl, fun _ _ => id, fun c hc => ?_⟩
  have hq := filter_update c l s.queues (s.queues l ++ [f])
    (by simp [h, Ne.symm hc])
  simp only [view, TcpServer.queueInLoop, hq]

theorem touches_pop {f : LoopFunctor} {rest : List LoopFunctor} (hq : s.queues l = f :: rest)
    (h : LoopFunctor.conn f = d) : Touches s d (pop s l rest) := by
  refine ⟨rfl, rfl, rfl, rfl, fun _ _ => id, fun c hc => ?_⟩
  have hf := filter_update c l s.queues rest (by simp [hq, h, Ne.symm hc])
  simp only [view, pop, hf]

theorem touches_store {conn : Conn} {w : World} (hd : s.conns d = some conn) :
    Touches s d (s.store d conn w) := by
  refine ⟨rfl, rfl, rfl, ?_, fun _ _ => id, fun c hc => ?_⟩
  · simp [TcpServer.store, hd]
  · have hpending : (w.pending.map (LoopFunctor.connection d)).filter
        (fun f => LoopFunctor.conn f = c) = [] := by
      rw [List.filter_eq_nil_iff]
      intro f hf
      obtain ⟨g, -, rfl⟩ := List.mem_map.mp hf
      simp [LoopFunctor.conn, Ne.symm hc]
    have hq := filter_update c conn.loop s.queues
      (s.queues conn.loop ++ w.pending.map (.connection d)) (by simp [hpending])
    simp only [view, TcpServer.store, hq, Function.update_of_ne hc]

theorem touches_erase {name : List Char} (hu : Unshared s d name) :
    Touches s d (erase s name) := by
  refine ⟨rfl, rfl, rfl, rfl, ?_, fun c hc => ?_⟩
  · intro nm c he
    by_cases hn : nm = name
    · subst hn
      simp [erase] at he
    · simpa [erase, hn] using he
  · have he : ((s.conns c).bind fun conn => (erase s name).connections conn.name) =
        (s.conns c).bind fun conn => s.connections conn.name := by
      cases hconn : s.conns c with
      | none => rfl
      | some conn => exact Function.update_of_ne (hu c conn hc hconn) ..
    simp only [view]
    rw [← he]
    rfl

theorem touches_removeConnectionInLoop {conn : Conn} (hd : s.conns d = some conn)
    (hu : Unshared s d conn.name) : Touches s d (s.removeConnectionInLoop l d) := by
  have hr : Touches s d (s.record d l .removeConnectionInLoop) := touches_record l _
  unfold TcpServer.removeConnectionInLoop
  rw [hd]
  exact hr.trans ((touches_erase (hr.unshared hu)).trans (touches_queueInLoop _ rfl))

theorem touches_removeConnection {conn : Conn} (hd : s.conns d = some conn)
    (hu : Unshared s d conn.name) : Touches s d (s.removeConnection l d) := by
  unfold TcpServer.removeConnection
  split
  · exact touches_removeConnectionInLoop hd hu
  · exact touches_queueInLoop _ rfl

theorem touches_runConnection {conn : Conn} {f : World → Except Fault World}
    (hd : s.conns d = some conn) (hu : Unshared s d conn.name)
    (h : s.runConnection l d f = .ok s') : Touches s d s' := by
  unfold TcpServer.runConnection at h
  rw [hd] at h
  obtain ⟨w, -, h⟩ := bind_ok h
  cases h
  have hst : Touches s d (s.store d conn w) := touches_store hd
  split
  · have hrec := hst.trans (touches_record l .handleClose)
    have hd' : ((s.store d conn w).record d l .handleClose).conns d =
        some { conn with world := { w with pending := [] } } := Function.update_self ..
    exact hrec.trans (touches_removeConnection hd' (hrec.unshared hu))
  · exact hst

theorem touches_recordedRun {conn : Conn} {m : Moment} {f : World → Except Fault World}
    (hd : s.conns d = some conn) (hu : Unshared s d conn.name)
    (h : (s.record d l m).runConnection l d f = .ok s') : Touches s d s' := by
  have hrec : Touches s d (s.record d l m) := touches_record l m
  exact hrec.trans (touches_runConnection hd (hrec.unshared hu) h)

end Touches

end RyanNetwork.Tcp.ServerView
