import RyanNetwork.Buffer.Model
import RyanNetwork.Lib.CircularBuffer
import RyanNetwork.Lib.Outcome
import RyanNetwork.Lib.Runs
import RyanNetwork.Lib.Wheel
import Mathlib.Logic.Function.Basic

/-!
# The echo server that kicks idle connections

`examples/idleconnection`: a connection's entry stands in buckets of a circular buffer with
one bucket for each second. The buckets own the entry, the connection only knows it weakly,
and the entry's destructor shuts the connection down. There is one entry for a connection,
so entries are named by their connections.
-/
namespace RyanNetwork.Servers.IdleConnection

open Lib

set_option autoImplicit false

variable {β κ : Type} [DecidableEq κ]

/-- `context` says that the connection has its weak pointer, `alive` that the connection
object exists; `echoed` and `shutdowns` record the calls of `Send` and `Shutdown`. -/
structure EchoServer (β κ : Type) where
  connectionBuckets : β
  context : κ → Bool
  alive : κ → Bool
  echoed : κ → List UInt8
  shutdowns : κ → Nat

namespace EchoServer

variable (B : CircularBuffer β (Finset κ))

def new (idleSeconds : Nat) : EchoServer β κ where
  connectionBuckets := B.resize (B.new idleSeconds) idleSeconds ∅
  context := fun _ => false
  alive := fun _ => false
  echoed := fun _ => []
  shutdowns := fun _ => 0

/-- `connectionBuckets_.back().insert(entry)`; there is no back in an empty buffer. -/
def insertBack (s : EchoServer β κ) (c : κ) : Except Fault (EchoServer β κ) :=
  if B.elements s.connectionBuckets = [] then .error .outOfBounds
  else .ok { s with connectionBuckets := B.modifyBack s.connectionBuckets (insert c) }

/-- Whether `weakEntry.lock()` gives the entry: some bucket still owns it. -/
def locks (s : EchoServer β κ) (c : κ) : Bool :=
  (B.elements s.connectionBuckets).any (c ∈ ·)

/-- `OnConnection` of a connection that is up. -/
def onConnectionUp (s : EchoServer β κ) (c : κ) : Except Fault (EchoServer β κ) := do
  let s ← { s with alive := Function.update s.alive c true }.insertBack B c
  return { s with context := Function.update s.context c true }

/-- `OnConnection` of a connection that is down. -/
def onConnectionDown (s : EchoServer β κ) (c : κ) : Except Fault (EchoServer β κ) :=
  if s.context c then .ok s else .error .assertion

def onMessage (s : EchoServer β κ) (c : κ) (msg : List UInt8) : Except Fault (EchoServer β κ) :=
  let s := { s with echoed := Function.update s.echoed c (s.echoed c ++ msg) }
  if s.context c then
    if s.locks B c then s.insertBack B c else .ok s
  else .error .assertion

/-- `OnTimer`; `~Entry` runs for each entry that no bucket owns any more, and shuts its
connection down if there is one. -/
def onTimer (s : EchoServer β κ) : EchoServer β κ :=
  let t := { s with connectionBuckets := B.pushBack s.connectionBuckets ∅ }
  { t with
    shutdowns := fun c =>
      if s.locks B c ∧ ¬t.locks B c ∧ s.alive c then s.shutdowns c + 1 else s.shutdowns c }

/-- The last `TcpConnectionPtr` is gone. -/
def destroyed (s : EchoServer β κ) (c : κ) : EchoServer β κ :=
  { s with alive := Function.update s.alive c false }

end EchoServer

inductive Event (κ : Type) where
  | up (c : κ)
  | down (c : κ)
  | message (c : κ) (msg : List UInt8)
  | destroyed (c : κ)
  | timer
  deriving DecidableEq

open EchoServer

/-- A connection comes up once; its other callbacks come later and while it exists. -/
def Allowed (s : EchoServer β κ) : Event κ → Prop
  | .up c => s.context c = false
  | .down c => s.context c = true ∧ s.alive c = true
  | .message c _ => s.context c = true ∧ s.alive c = true
  | .destroyed c => s.alive c = true
  | .timer => True

instance (s : EchoServer β κ) : DecidablePred (Allowed s)
  | .up _ => inferInstanceAs (Decidable (_ = _))
  | .down _ => inferInstanceAs (Decidable (_ ∧ _))
  | .message _ _ => inferInstanceAs (Decidable (_ ∧ _))
  | .destroyed _ => inferInstanceAs (Decidable (_ = _))
  | .timer => isTrue trivial

def perform (B : CircularBuffer β (Finset κ)) (s : EchoServer β κ) :
    Event κ → Except Fault (EchoServer β κ)
  | .up c => s.onConnectionUp B c
  | .down c => s.onConnectionDown c
  | .message c msg => s.onMessage B c msg
  | .destroyed c => .ok (s.destroyed c)
  | .timer => .ok (s.onTimer B)

def Step (B : CircularBuffer β (Finset κ)) (s : EchoServer β κ) (e : Event κ)
    (s' : EchoServer β κ) : Prop :=
  Allowed s e ∧ perform B s e = .ok s'

/-- How many ticks the entry of the connection has left. -/
def EchoServer.left (B : CircularBuffer β (Finset κ)) (s : EchoServer β κ) (c : κ) : Nat :=
  Wheel.left c (B.elements s.connectionBuckets)

/-- There are `n` buckets, and no room for more. -/
structure EchoServer.Full (B : CircularBuffer β (Finset κ)) (n : Nat) (s : EchoServer β κ) :
    Prop where
  size : (B.elements s.connectionBuckets).length = n
  capacity : B.capacity s.connectionBuckets = n
  pos : 0 < n

section Buffer

variable {B : CircularBuffer β (Finset κ)} {s : EchoServer β κ} {c d : κ} {b : β} {n : Nat}

theorem locks_iff : s.locks B c = true ↔ 0 < s.left B c := by
  rw [EchoServer.left, Wheel.left_pos_iff, EchoServer.locks, List.any_eq_true]
  simp only [decide_eq_true_eq]

omit [DecidableEq κ] in
theorem EchoServer.Full.ne_nil (h : s.Full B n) : B.elements s.connectionBuckets ≠ [] := by
  intro hnil
  have hsize := h.size
  have hpos := h.pos
  rw [hnil, List.length_nil] at hsize
  omega

omit [DecidableEq κ] in
/-- The constructor fills the buffer. -/
theorem elements_new (hB : B.Documented) (n : Nat) :
    B.elements (B.resize (B.new n) n ∅) = List.replicate n ∅ := by
  have hnew := hB.elements_new n
  rw [hB.elements_resize _ _ _ (by rw [hnew]; exact Nat.zero_le n), hnew]
  rfl

/-- `insert` through `back()`. -/
theorem elements_insert (hB : B.Documented) (hne : B.elements b ≠ []) (c : κ) :
    B.elements (B.modifyBack b (insert c)) = Wheel.touch c (B.elements b) := by
  have hb := (List.dropLast_append_getLast hne).symm
  rw [hB.elements_modifyBack b (insert c) _ _ hb, ← Wheel.touch_snoc, ← hb]

omit [DecidableEq κ] in
/-- `push_back(Bucket())` on a full buffer. -/
theorem elements_push (hB : B.Documented) (h : s.Full B n) :
    B.elements (B.pushBack s.connectionBuckets ∅) =
      Wheel.turn (B.elements s.connectionBuckets) := by
  obtain ⟨k, w, hw⟩ := List.exists_cons_of_ne_nil h.ne_nil
  have hfull : B.capacity s.connectionBuckets = (k :: w).length := by
    rw [h.capacity, ← h.size, hw]
  rw [hB.elements_pushBack _ ∅ k w hw hfull, hw]
  rfl

end Buffer

/-! ## One step -/

section Steps

variable {B : CircularBuffer β (Finset κ)} {s s' t u : EchoServer β κ} {c d : κ} {e : Event κ}
  {n : Nat}

/-- The entry is put into the last bucket. -/
structure Touched (B : CircularBuffer β (Finset κ)) (s : EchoServer β κ) (c : κ)
    (s' : EchoServer β κ) : Prop where
  nonempty : B.elements s.connectionBuckets ≠ []
  buckets : s'.connectionBuckets = B.modifyBack s.connectionBuckets (insert c)

theorem insertBack_ok (h : s.insertBack B c = .ok s') : Touched B s c s' ∧
    s' = { s with connectionBuckets := B.modifyBack s.connectionBuckets (insert c) } := by
  unfold EchoServer.insertBack at h
  split at h
  · cases h
  · rename_i hne
    cases h
    exact ⟨⟨hne, rfl⟩, rfl⟩

theorem Touched.left_self (hB : B.Documented) (h : Touched B s c s') :
    s'.left B c = (B.elements s.connectionBuckets).length := by
  rw [EchoServer.left, h.buckets, elements_insert hB h.nonempty]
  exact Wheel.left_touch_self h.nonempty

theorem Touched.left_of_ne (hB : B.Documented) (h : Touched B s c s') (hd : d ≠ c) :
    s'.left B d = s.left B d := by
  rw [EchoServer.left, h.buckets, elements_insert hB h.nonempty, Wheel.left_touch_of_ne hd]
  rfl

theorem Touched.full (hB : B.Documented) (h : Touched B s c s') (hs : s.Full B n) :
    s'.Full B n := by
  refine ⟨?_, ?_, hs.pos⟩
  · rw [h.buckets, elements_insert hB h.nonempty, Wheel.length_touch, hs.size]
  · rw [h.buckets, hB.capacity_modifyBack _ _ h.nonempty, hs.capacity]

theorem onConnectionUp_ok (h : s.onConnectionUp B c = .ok s') : Touched B s c s' ∧
    s'.alive = Function.update s.alive c true ∧
    s'.context = Function.update s.context c true ∧ s'.shutdowns = s.shutdowns := by
  obtain ⟨v, hv, h⟩ := bind_ok h
  obtain ⟨htouch, rfl⟩ := insertBack_ok hv
  cases h
  exact ⟨⟨htouch.nonempty, rfl⟩, rfl, rfl, rfl⟩

/-- `OnMessage` echoes, and renews the entry if there is one. -/
theorem onMessage_ok {msg : List UInt8} (h : s.onMessage B c msg = .ok s') :
    s'.context = s.context ∧ s'.alive = s.alive ∧ s'.shutdowns = s.shutdowns ∧
      s'.echoed = Function.update s.echoed c (s.echoed c ++ msg) ∧
      ((0 < s.left B c ∧ Touched B s c s') ∨
        (s.left B c = 0 ∧ s'.connectionBuckets = s.connectionBuckets)) := by
  unfold EchoServer.onMessage at h
  dsimp only at h
  split at h
  · split at h
    · rename_i hl
      obtain ⟨htouch, rfl⟩ := insertBack_ok h
      exact ⟨rfl, rfl, rfl, rfl, .inl ⟨locks_iff.mp hl, htouch.nonempty, rfl⟩⟩
    · rename_i hl
      cases h
      refine ⟨rfl, rfl, rfl, rfl, .inr ⟨?_, rfl⟩⟩
      exact Nat.eq_zero_of_not_pos fun hp => hl (locks_iff.mpr hp)
  · cases h

omit [DecidableEq κ] in
theorem onConnectionDown_ok (h : s.onConnectionDown c = .ok s') : s' = s := by
  unfold EchoServer.onConnectionDown at h
  split at h
  · cases h
    rfl
  · cases h

theorem onTimer_left (hB : B.Documented) (h : s.Full B n) (c : κ) :
    (s.onTimer B).left B c = s.left B c - 1 := by
  unfold EchoServer.onTimer EchoServer.left
  dsimp only
  rw [elements_push hB h]
  exact Wheel.left_turn c _

theorem onTimer_full (hB : B.Documented) (h : s.Full B n) : (s.onTimer B).Full B n := by
  refine ⟨?_, ?_, h.pos⟩
  · have hpush := congrArg List.length (elements_push hB h)
    rw [Wheel.length_turn, h.size] at hpush
    exact hpush
  · exact (hB.capacity_pushBack _ ∅).trans h.capacity

/-- A tick shuts down the connections whose entries had one tick left. -/
theorem onTimer_shutdowns (hB : B.Documented) (h : s.Full B n) (c : κ) :
    (s.onTimer B).shutdowns c =
      s.shutdowns c + if s.left B c = 1 ∧ s.alive c = true then 1 else 0 := by
  have hleft : EchoServer.left B { s with connectionBuckets := B.pushBack s.connectionBuckets ∅ } c
      = s.left B c - 1 := onTimer_left hB h c
  have hlast : (s.locks B c = true ∧ ¬EchoServer.locks B
      { s with connectionBuckets := B.pushBack s.connectionBuckets ∅ } c = true) ↔
      s.left B c = 1 := by
    rw [locks_iff, locks_iff, hleft]
    omega
  unfold EchoServer.onTimer
  simp only [← and_assoc, hlast]
  split
  · rfl
  · rfl

/-- The buffer stays full. -/
theorem step_full (hB : B.Documented) (h : s.Full B n) (hs : Step B s e s') : s'.Full B n := by
  obtain ⟨-, hp⟩ := hs
  cases e with
  | up c => exact (onConnectionUp_ok hp).1.full hB h
  | down c => exact onConnectionDown_ok hp ▸ h
  | message c msg =>
    obtain ⟨-, -, -, -, ⟨-, htouch⟩ | ⟨-, hb⟩⟩ := onMessage_ok hp
    · exact htouch.full hB h
    · exact ⟨hb ▸ h.size, hb ▸ h.capacity, h.pos⟩
  | destroyed c =>
    cases hp
    exact ⟨h.size, h.capacity, h.pos⟩
  | timer =>
    cases hp
    exact onTimer_full hB h

/-- What a step that is no callback of the connection's own does to it: a tick takes one
tick from its entry, and shuts it down with the last one. -/
theorem step_elsewhere (hB : B.Documented) (hfull : s.Full B n) (hctx : s.context c = true)
    (h : Step B s e s') (hm : ∀ msg, e ≠ .message c msg) :
    s'.context c = true ∧ (e ≠ .destroyed c → s'.alive c = s.alive c) ∧
      s'.left B c = s.left B c - (if e = .timer then 1 else 0) ∧
      s'.shutdowns c =
        s.shutdowns c + if e = .timer ∧ s.left B c = 1 ∧ s.alive c = true then 1 else 0 := by
  obtain ⟨ha, hp⟩ := h
  cases e with
  | up d =>
    have hd : c ≠ d := by
      rintro rfl
      exact absurd (hctx.symm.trans ha) (by decide)
    obtain ⟨htouch, hal, hc, hsh⟩ := onConnectionUp_ok hp
    simp [hal, hc, hsh, hctx, hd, htouch.left_of_ne hB hd]
  | down d =>
    obtain rfl := onConnectionDown_ok hp
    simp [hctx]
  | message d msg =>
    have hd : c ≠ d := by
      rintro rfl
      exact hm msg rfl
    obtain ⟨hc, hal, hsh, -, hb⟩ := onMessage_ok hp
    have hl : s'.left B c = s.left B c := by
      rcases hb with ⟨-, htouch⟩ | ⟨-, hb⟩
      · exact htouch.left_of_ne hB hd
      · rw [EchoServer.left, hb]
        rfl
    simp [hc, hal, hsh, hl, hctx]
  | destroyed d =>
    cases hp
    refine ⟨hctx, fun hd => ?_, rfl, rfl⟩
    refine Function.update_of_ne ?_ ..
    rintro rfl
    exact hd rfl
  | timer =>
    cases hp
    refine ⟨hctx, fun _ => rfl, onTimer_left hB hfull c, ?_⟩
    rw [onTimer_shutdowns hB hfull]
    simp

/-- While no message comes, the entry runs down tick by tick. -/
theorem run_elsewhere (hB : B.Documented) {mid : List (Event κ)} (hr : Run (Step B) s mid u)
    (hfull : s.Full B n) (hctx : s.context c = true) (hm : ∀ msg, .message c msg ∉ mid) :
    u.context c = true ∧ u.left B c = s.left B c - mid.count .timer ∧
      (mid.count .timer < s.left B c → u.shutdowns c = s.shutdowns c) ∧
      (0 < s.left B c → s.left B c ≤ mid.count .timer → s.alive c = true → .destroyed c ∉ mid →
        u.shutdowns c = s.shutdowns c + 1) ∧
      (s.left B c = 0 → u.shutdowns c = s.shutdowns c) := by
  induction hr with
  | nil s =>
    refine ⟨hctx, rfl, fun _ => rfl, fun hpos hle => ?_, fun _ => rfl⟩
    simp only [List.count_nil] at hle
    omega
  | @cons s t u e mid hs hrest ih =>
    obtain ⟨hc, hal, hl, hsh⟩ :=
      step_elsewhere hB hfull hctx hs fun msg he => hm msg (he ▸ .head _)
    obtain ⟨ic, il, ibefore, iafter, inone⟩ :=
      ih (step_full hB hfull hs) hc fun msg hin => hm msg (.tail _ hin)
    rw [List.count_cons]
    refine ⟨ic, ?_⟩
    by_cases he : e = .timer
    · subst he
      simp only [↓reduceIte, true_and, beq_self_eq_true] at hl hsh ⊢
      refine ⟨by omega, fun hlt => ?_, fun hpos hle halive hd => ?_, fun hz => ?_⟩
      · rw [ibefore (by omega), hsh, if_neg (by omega), Nat.add_zero]
      · by_cases hone : s.left B c = 1
        · rw [inone (by omega), hsh, if_pos ⟨hone, halive⟩]
        · rw [iafter (by omega) (by omega) ((hal (by simp)).trans halive)
            fun hin => hd (.tail _ hin), hsh, if_neg (by omega), Nat.add_zero]
      · rw [inone (by omega), hsh, if_neg (by omega), Nat.add_zero]
    · have hbeq : (e == Event.timer) = false := beq_false_of_ne he
      simp only [he, hbeq, ↓reduceIte, false_and, Nat.sub_zero, Nat.add_zero,
        Bool.false_eq_true] at hl hsh ⊢
      rw [← hl, ← hsh]
      refine ⟨il, ibefore, fun hpos hle halive hd => ?_, inone⟩
      have hsame : t.alive c = s.alive c := hal fun hx => hd (hx ▸ .head _)
      exact iafter hpos hle (hsame.trans halive) fun hin => hd (.tail _ hin)

/-- Once no bucket holds the entry, nothing brings it back, and its connection is not shut
down any more. -/
theorem step_gone (hB : B.Documented) (hfull : s.Full B n) (hctx : s.context c = true)
    (hz : s.left B c = 0) (h : Step B s e s') :
    s'.context c = true ∧ s'.left B c = 0 ∧ s'.shutdowns c = s.shutdowns c := by
  by_cases hm : ∃ msg, e = .message c msg
  · obtain ⟨msg, rfl⟩ := hm
    obtain ⟨hc, -, hsh, -, ⟨hpos, -⟩ | ⟨-, hb⟩⟩ := onMessage_ok h.2
    · omega
    · refine ⟨hc ▸ hctx, ?_, by rw [hsh]⟩
      rw [EchoServer.left, hb]
      exact hz
  · obtain ⟨hc, -, hl, hsh⟩ :=
      step_elsewhere hB hfull hctx h fun msg he => hm ⟨msg, he⟩
    refine ⟨hc, by omega, ?_⟩
    rw [hsh, if_neg (by omega), Nat.add_zero]

theorem run_gone (hB : B.Documented) {later : List (Event κ)} (hr : Run (Step B) s later u)
    (hfull : s.Full B n) (hctx : s.context c = true) (hz : s.left B c = 0) :
    u.left B c = 0 ∧ u.shutdowns c = s.shutdowns c := by
  induction hr with
  | nil s => exact ⟨hz, rfl⟩
  | cons hs _ ih =>
    obtain ⟨hc, hl, hsh⟩ := step_gone hB hfull hctx hz hs
    obtain ⟨hleft, hrest⟩ := ih (step_full hB hfull hs) hc hl
    exact ⟨hleft, hrest.trans hsh⟩

end Steps

/-! ## Whole runs -/

/-- Entries stand for connections that came up, and have not shut them down yet. -/
structure Ready (B : CircularBuffer β (Finset κ)) (n : Nat) (s : EchoServer β κ) : Prop where
  full : s.Full B n
  fresh : ∀ c, s.context c = false → s.left B c = 0 ∧ s.shutdowns c = 0
  held : ∀ c, 0 < s.left B c → s.shutdowns c = 0
  once : ∀ c, s.shutdowns c ≤ 1

section Runs

variable {B : CircularBuffer β (Finset κ)} {s s' t u : EchoServer β κ} {c d : κ} {e : Event κ}
  {n : Nat}

theorem ready_new (hB : B.Documented) (hn : 1 ≤ n) :
    Ready B n (EchoServer.new B n : EchoServer β κ) := by
  have helements : B.elements (EchoServer.new B n : EchoServer β κ).connectionBuckets =
      List.replicate n ∅ := elements_new hB n
  have hcapacity : B.capacity (EchoServer.new B n : EchoServer β κ).connectionBuckets = n := by
    have hnew := hB.capacity_new n
    exact (hB.capacity_resize _ n ∅ (Nat.le_of_eq hnew.symm)).trans hnew
  have hleft (c : κ) : (EchoServer.new B n : EchoServer β κ).left B c = 0 := by
    refine Nat.eq_zero_of_not_pos fun hpos => ?_
    obtain ⟨b, hb, hc⟩ := Wheel.left_pos_iff.mp hpos
    rw [helements] at hb
    rw [(List.mem_replicate.mp hb).2] at hc
    cases hc
  refine ⟨⟨?_, hcapacity, hn⟩, fun c _ => ⟨hleft c, rfl⟩, fun c _ => rfl, fun c => Nat.zero_le 1⟩
  rw [helements, List.length_replicate]

/-- The entry is put into the last bucket: nothing else changes. -/
theorem ready_touch (hB : B.Documented) (h : Ready B n s) (hc : s.shutdowns c = 0)
    (hctx : s'.context c = true) (hother : ∀ d, d ≠ c → s'.context d = s.context d)
    (htouch : Touched B s c s') (hsh : s'.shutdowns = s.shutdowns) : Ready B n s' := by
  refine ⟨htouch.full hB h.full, fun d hd => ?_, fun d hd => ?_, fun d => ?_⟩
  · have hne : d ≠ c := by
      rintro rfl
      exact absurd (hctx.symm.trans hd) (by decide)
    rw [hother d hne] at hd
    rw [htouch.left_of_ne hB hne, hsh]
    exact h.fresh d hd
  · rw [hsh]
    by_cases hne : d = c
    · rw [hne, hc]
    · exact h.held d (htouch.left_of_ne hB hne ▸ hd)
  · rw [hsh]
    exact h.once d

theorem step_ready (hB : B.Documented) (h : Ready B n s) (hs : Step B s e s') :
    Ready B n s' := by
  have hfull := step_full hB h.full hs
  obtain ⟨ha, hp⟩ := hs
  cases e with
  | up c =>
    obtain ⟨htouch, -, hctx, hsh⟩ := onConnectionUp_ok hp
    refine ready_touch hB h (h.fresh c ha).2 ?_ (fun d hd => ?_) htouch hsh
    · rw [hctx, Function.update_self]
    · rw [hctx, Function.update_of_ne hd]
  | down c => exact onConnectionDown_ok hp ▸ h
  | message c msg =>
    obtain ⟨hctx, -, hsh, -, ⟨hpos, htouch⟩ | ⟨-, hb⟩⟩ := onMessage_ok hp
    · exact ready_touch hB h (h.held c hpos) (hctx ▸ ha.1) (fun d _ => by rw [hctx]) htouch hsh
    · have hleft (d : κ) : s'.left B d = s.left B d := by rw [EchoServer.left, hb]; rfl
      refine ⟨hfull, fun d hd => ?_, fun d hd => ?_, fun d => ?_⟩
      · rw [hleft, hsh]
        exact h.fresh d (hctx ▸ hd)
      · rw [hsh]
        exact h.held d (hleft d ▸ hd)
      · rw [hsh]
        exact h.once d
  | destroyed c =>
    cases hp
    exact ⟨hfull, h.fresh, h.held, h.once⟩
  | timer =>
    cases hp
    refine ⟨hfull, fun c hc => ?_, fun c hc => ?_, fun c => ?_⟩
    · obtain ⟨hl, hz⟩ := h.fresh c hc
      rw [onTimer_left hB h.full, onTimer_shutdowns hB h.full, hl, hz]
      exact ⟨rfl, rfl⟩
    · rw [onTimer_left hB h.full] at hc
      rw [onTimer_shutdowns hB h.full, h.held c (by omega), if_neg (by omega)]
    · rw [onTimer_shutdowns hB h.full]
      split
      · rename_i hone
        rw [h.held c (by omega)]
      · exact h.once c

theorem run_ready (hB : B.Documented) {events : List (Event κ)} (hr : Run (Step B) s events s')
    (h : Ready B n s) : Ready B n s' :=
  hr.invariant (P := Ready B n) (fun _ _ _ hd hs => step_ready hB hd hs) h

/-- No callback fails. -/
theorem perform_ok (h : Ready B n s) (ha : Allowed s e) : ∃ s', perform B s e = .ok s' := by
  have hne := h.full.ne_nil
  cases e with
  | up c =>
    simp only [perform, EchoServer.onConnectionUp, EchoServer.insertBack, if_neg hne]
    exact ⟨_, rfl⟩
  | down c => exact ⟨s, by simp [perform, EchoServer.onConnectionDown, ha.1]⟩
  | message c msg =>
    simp only [perform, EchoServer.onMessage, ha.1, ↓reduceIte, EchoServer.insertBack, if_neg hne]
    split
    · exact ⟨_, rfl⟩
    · exact ⟨_, rfl⟩
  | destroyed c => exact ⟨_, rfl⟩
  | timer => exact ⟨_, rfl⟩

/-- Activity of a connection that is not given up yet: all its ticks are left. -/
theorem active_left (hB : B.Documented) (h : Ready B n s) (hs : Step B s e t)
    (he : e = .up c ∨ (s.locks B c = true ∧ ∃ msg, e = .message c msg)) :
    t.context c = true ∧ t.alive c = true ∧ t.left B c = n ∧ t.shutdowns c = 0 := by
  obtain ⟨ha, hp⟩ := hs
  rcases he with rfl | ⟨hl, msg, rfl⟩
  · obtain ⟨htouch, hal, hctx, hsh⟩ := onConnectionUp_ok hp
    rw [hal, hctx, hsh, Function.update_self, Function.update_self]
    exact ⟨rfl, rfl, (htouch.left_self hB).trans h.full.size, (h.fresh c ha).2⟩
  · have hpos := locks_iff.mp hl
    obtain ⟨hctx, hal, hsh, -, ⟨-, htouch⟩ | ⟨hz, -⟩⟩ := onMessage_ok hp
    · rw [hctx, hal, hsh]
      exact ⟨ha.1, ha.2, (htouch.left_self hB).trans h.full.size, h.held c hpos⟩
    · omega

end Runs

/-- In every run of the server, for every circular buffer that does what is documented: after
its last activity a connection is kept for `n` ticks and no less, then it is shut down if it
still exists; its entry never comes back, whatever messages follow; no connection is shut down
twice, and no callback fails. -/
theorem idle_connections_shut_down {B : CircularBuffer β (Finset κ)} (hB : B.Documented) {n : Nat}
    (hn : 1 ≤ n) {s t u : EchoServer β κ} {before after : List (Event κ)} {e : Event κ} {c : κ}
    (hr : Run (Step B) (EchoServer.new B n) before s) (hs : Step B s e t)
    (he : e = .up c ∨ (s.locks B c = true ∧ ∃ msg, e = .message c msg))
    (ht : Run (Step B) t after u) (hm : ∀ msg, .message c msg ∉ after) :
    (after.count .timer < n → u.locks B c = true ∧ u.shutdowns c = 0) ∧
      (n ≤ after.count .timer → u.locks B c = false ∧
        (.destroyed c ∉ after → u.shutdowns c = 1) ∧
        ∀ later v, Run (Step B) u later v →
          v.locks B c = false ∧ v.shutdowns c = u.shutdowns c) ∧
      (∀ d, u.shutdowns d ≤ 1) ∧ ∀ e', Allowed u e' → ∃ u', perform B u e' = .ok u' := by
  have h := run_ready hB hr (ready_new hB hn)
  have hready := step_ready hB h hs
  have hu := run_ready hB ht hready
  obtain ⟨hctx, halive, hleft, hsh⟩ := active_left hB h hs he
  obtain ⟨huctx, hl, hbefore, hafter, -⟩ := run_elsewhere hB ht hready.full hctx hm
  rw [hleft] at hl hbefore hafter
  refine ⟨fun hlt => ?_, fun hle => ⟨?_, fun hd => ?_, fun later v hv => ?_⟩, hu.once,
    fun e' => perform_ok hu⟩
  · exact ⟨locks_iff.mpr (by omega), (hbefore hlt).trans hsh⟩
  · rw [← Bool.not_eq_true, locks_iff]
    omega
  · rw [hafter (by omega) hle halive hd, hsh]
  · obtain ⟨hgone, hsame⟩ := run_gone hB hv hu.full huctx (by omega)
    refine ⟨?_, hsame⟩
    rw [← Bool.not_eq_true, locks_iff]
    omega

/-- A message after the first tick, and one that comes too late. -/
def lateMessage : List (Event Bool) :=
  [.up true, .timer, .message true [104], .timer, .up false, .timer, .message true [105], .timer]

/-- Two buckets: the message after the first tick postpones the shutdown to the third tick, the
one after the third brings nothing back. -/
theorem message_postpones_shutdown :
    let B := CircularBuffer.bounded (Finset Bool)
    ∃ u, Run (Step B) (EchoServer.new B 2) lateMessage u ∧
      u.locks B true = false ∧ u.shutdowns true = 1 := by
  intro B
  have hB : B.Documented := CircularBuffer.documented_bounded (Finset Bool)
  have hok : (Run.exec Allowed (perform B) (EchoServer.new B 2) lateMessage).isSome = true := by
    decide
  obtain ⟨u, hu⟩ := Option.isSome_iff_exists.mp hok
  have hr : Run (Step B) (EchoServer.new B 2)
      ([.up true, .timer, .message true [104]] ++ ([.timer, .up false, .timer] ++
        [.message true [105], .timer])) u := Run.of_exec hu
  refine ⟨u, hr, ?_⟩
  obtain ⟨t, hearly, hr⟩ := hr.split
  obtain ⟨v, hquiet, hlate⟩ := hr.split
  cases hearly with
  | cons hup hearly =>
    cases hearly with
    | cons htick hearly =>
      cases hearly with
      | cons hmsg hearly =>
        cases hearly
        have hkept := (idle_connections_shut_down hB (by decide) (.nil _) hup (.inl rfl)
          (.single htick) (by simp)).1 (by decide)
        have hdown := (idle_connections_shut_down hB (by decide) (.cons hup (.single htick)) hmsg
          (.inr ⟨hkept.1, [104], rfl⟩) hquiet (by simp)).2.1 (by decide)
        obtain ⟨hgone, hsame⟩ := hdown.2.2 _ _ hlate
        exact ⟨hgone, hsame.trans (hdown.2.1 (by simp))⟩

end RyanNetwork.Servers.IdleConnection
