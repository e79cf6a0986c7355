import RyanNetwork.Tcp.SharedPoller

/-!
# Descriptors that are used again

A new connection may get the descriptor and the address of an old one whose
`ConnectDestroyed` has run. The poller of a loop holds the channels of its live connections
and nothing of the others, so the server with one poller for each loop takes the same steps
as the server of `Tcp.Server`, where each connection brings a poller of its own.
-/
namespace RyanNetwork.Tcp.SharedPoller

open Lib Interest Registration ServerView Table Lifetime OtherPoller
open Callbacks (Quiet)
open World (Call Answers)

set_option autoImplicit false

/-! ## What the pollers hold -/

def Destroyed (s : TcpServer) (c : Nat) : Prop := .connectDestroyed ∈ history s c

instance (s : TcpServer) (c : Nat) : Decidable (Destroyed s c) :=
  inferInstanceAs (Decidable (_ ∈ _))

/-- A connection whose `ConnectDestroyed` has not run, and which still has its channel. -/
def Live (s : TcpServer) (c : Nat) (conn : Conn) : Prop :=
  s.conns c = some conn ∧ ¬Destroyed s c

/-- The poller knows nothing of the descriptor. -/
def Unknown (p : EpollPoller) (fd : Int) : Prop := p.channels fd = none ∧ p.interest fd = none

instance (p : EpollPoller) (fd : Int) : Decidable (Unknown p fd) :=
  inferInstanceAs (Decidable (_ ∧ _))

/-- The loops' pollers hold of each live connection what its own poller holds, and besides
that only `own`, the channels of the loops themselves: of the eventfd, the timerfd and the
listening socket. Connections younger than a live one have other descriptors and addresses. -/
structure Shares (own : Nat → EpollPoller) (t : SharedServer) (s : TcpServer) : Prop where
  server : t.server = bare s
  alone : ∀ c conn, Live s c conn → Registered conn.world.poller conn.world.conn.channel
  shared : ∀ c conn, Live s c conn → Registered (t.pollers conn.loop) conn.world.conn.channel
  apart : ∀ c d conn dconn, Live s c conn → s.conns d = some dconn → c < d →
    conn.world.conn.channel.fd ≠ dconn.world.conn.channel.fd ∧
      conn.world.conn.channel.addr ≠ dconn.world.conn.channel.addr
  foreign : ∀ c conn, s.conns c = some conn → Unknown (own conn.loop) conn.world.conn.channel.fd
  rest : ∀ l fd, (∀ c conn, Live s c conn → conn.loop = l → conn.world.conn.channel.fd ≠ fd) →
    (t.pollers l).channels fd = (own l).channels fd ∧
      (t.pollers l).interest fd = (own l).interest fd

section Shares

variable {own : Nat → EpollPoller} {t : SharedServer} {s s' : TcpServer} {c d l : Nat}
  {conn dconn : Conn}

theorem registered_elsewhere {p q : EpollPoller} {ch : Channel} {fd : Int} (h : Registered p ch)
    (he : Elsewhere p q fd) (hne : ch.fd ≠ fd) : Registered q ch := by
  obtain ⟨hc, hi⟩ := he ch.fd hne
  cases h with
  | new h1 h2 h3 => exact .new h1 (hc.trans h2) (hi.trans h3)
  | added h1 h2 h3 => exact .added h1 (hc.trans h2) (hi.trans h3)
  | deleted h1 h2 h3 => exact .deleted h1 (hc.trans h2) (hi.trans h3)

theorem registered_new {p : EpollPoller} {ch : Channel} (h : Registered p ch)
    (hi : ch.index = kNew) : Unknown p ch.fd := by
  cases h with
  | new _ h2 h3 => exact ⟨h2, h3⟩
  | added h1 => exact absurd (hi.symm.trans h1) (by decide)
  | deleted h1 => exact absurd (hi.symm.trans h1) (by decide)

theorem live_of_view (h : view s' d = view s d) : Live s' d dconn ↔ Live s d dconn := by
  have hconn : s'.conns d = s.conns d := congrArg View.conn h
  have hhist : history s' d = history s d := congrArg (fun v => v.log.map LogEntry.moment) h
  rw [Live, Live, Destroyed, Destroyed, hconn, hhist]

theorem Shares.distinct (h : Shares own t s) (hc : Live s c conn) (hd : Live s d dconn)
    (hne : c ≠ d) : conn.world.conn.channel.fd ≠ dconn.world.conn.channel.fd := by
  rcases Nat.lt_or_gt_of_ne hne with hlt | hlt
  · exact (h.apart c d conn dconn hc hd.1 hlt).1
  · exact Ne.symm (h.apart d c dconn conn hd hc.1 hlt).1

/-- Every connection was there before, with its loop, its descriptor and its address. -/
structure Keeps (s s' : TcpServer) : Prop where
  origin : ∀ c conn, s'.conns c = some conn → ∃ old, s.conns c = some old ∧
    conn.loop = old.loop ∧ conn.world.conn.channel.fd = old.world.conn.channel.fd ∧
      conn.world.conn.channel.addr = old.world.conn.channel.addr
  stays : ∀ c, Destroyed s c → Destroyed s' c

theorem Keeps.apart (h : Keeps s s') (hsh : Shares own t s) (hl : Live s' c conn)
    (hd : s'.conns d = some dconn) (hlt : c < d) :
    conn.world.conn.channel.fd ≠ dconn.world.conn.channel.fd ∧
      conn.world.conn.channel.addr ≠ dconn.world.conn.channel.addr := by
  obtain ⟨old, hc', -, hfd, haddr⟩ := h.origin c conn hl.1
  obtain ⟨dold, hd', -, hdfd, hdaddr⟩ := h.origin d dconn hd
  rw [hfd, haddr, hdfd, hdaddr]
  exact hsh.apart c d old dold ⟨hc', fun hdes => hl.2 (h.stays c hdes)⟩ hd' hlt

theorem Keeps.foreign (h : Keeps s s') (hsh : Shares own t s) (hc : s'.conns c = some conn) :
    Unknown (own conn.loop) conn.world.conn.channel.fd := by
  obtain ⟨old, hc', hloop, hfd, -⟩ := h.origin c conn hc
  rw [hloop, hfd]
  exact hsh.foreign c old hc'

/-- A step of one connection that leaves its channel where it was. -/
theorem keeps_of_others {w : World} (hc : s.conns c = some conn)
    (hc' : s'.conns c = some { conn with world := w })
    (hfd : w.conn.channel.fd = conn.world.conn.channel.fd)
    (haddr : w.conn.channel.addr = conn.world.conn.channel.addr)
    (hd : Destroyed s c → Destroyed s' c) (ho : ∀ d, d ≠ c → view s' d = view s d) :
    Keeps s s' := by
  refine ⟨?_, ?_⟩
  · intro d dconn hdc
    by_cases hne : d = c
    · subst hne
      cases hdc.symm.trans hc'
      exact ⟨conn, hc, rfl, hfd, haddr⟩
    · have hsame : s'.conns d = s.conns d := congrArg View.conn (ho d hne)
      exact ⟨dconn, hsame ▸ hdc, rfl, rfl, rfl⟩
  · intro d hdes
    by_cases hne : d = c
    · subst hne
      exact hd hdes
    · have hhist : history s' d = history s d :=
        congrArg (fun v => v.log.map LogEntry.moment) (ho d hne)
      rw [Destroyed, hhist]
      exact hdes

/-- A step of a connection that has no channel any more. -/
theorem shares_of_destroyed (hsh : Shares own t s) (hk : Keeps s s') (hd : Destroyed s c)
    (ho : ∀ d, d ≠ c → view s' d = view s d) : Shares own ⟨bare s', t.pollers⟩ s' := by
  have hlive (d : Nat) (dconn : Conn) : Live s' d dconn ↔ Live s d dconn := by
    by_cases h : d = c
    · subst h
      exact ⟨fun hl => absurd (hk.stays d hd) hl.2, fun hl => absurd hd hl.2⟩
    · exact live_of_view (ho d h)
  refine ⟨rfl, ?_, ?_, ?_, ?_, ?_⟩
  · intro d dconn hl
    exact hsh.alone d dconn ((hlive d dconn).mp hl)
  · intro d dconn hl
    exact hsh.shared d dconn ((hlive d dconn).mp hl)
  · intro d e dconn econn hl he hlt
    exact hk.apart hsh hl he hlt
  · intro d dconn hdc
    exact hk.foreign hsh hdc
  · intro l fd hfree
    exact hsh.rest l fd fun d dconn hl => hfree d dconn ((hlive d dconn).mpr hl)

/-- A step of a live connection: it is left in the world `w`, and its loop with the poller `q`. -/
structure Ran (t : SharedServer) (s s' : TcpServer) (c : Nat) (conn : Conn) (w : World)
    (q : EpollPoller) : Prop where
  live : Live s c conn
  now : s'.conns c = some { conn with world := w }
  others : ∀ d, d ≠ c → view s' d = view s d
  beside : Beside conn.world.conn.channel.addr conn.world.conn.channel.fd (t.pollers conn.loop) w q
  removed : Destroyed s' c → w.conn.channel.index = kNew

section Ran

variable {w : World} {q : EpollPoller}

theorem Ran.keeps (h : Ran t s s' c conn w q) : Keeps s s' :=
  keeps_of_others h.live.1 h.now h.beside.fd_eq h.beside.addr_eq
    (fun hd => absurd hd h.live.2) h.others

/-- A live connection after the step was live before it. -/
theorem Ran.cases (h : Ran t s s' c conn w q) (hl : Live s' d dconn) :
    (d ≠ c ∧ Live s d dconn) ∨ (d = c ∧ dconn = { conn with world := w }) := by
  by_cases hd : d = c
  · subst hd
    exact .inr ⟨rfl, Option.some.inj (hl.1.symm.trans h.now)⟩
  · exact .inl ⟨hd, (live_of_view (h.others d hd)).mp hl⟩

theorem Ran.shared (h : Ran t s s' c conn w q) (hsh : Shares own t s) (hl : Live s' d dconn) :
    Registered (Function.update t.pollers conn.loop q dconn.loop) dconn.world.conn.channel := by
  obtain ⟨hne, hd⟩ | ⟨rfl, rfl⟩ := h.cases hl
  · have hreg := hsh.shared d dconn hd
    by_cases hloop : dconn.loop = conn.loop
    · rw [hloop, Function.update_self]
      rw [hloop] at hreg
      exact registered_elsewhere hreg h.beside.elsewhere (hsh.distinct hd h.live hne)
    · rw [Function.update_of_ne hloop]
      exact hreg
  · rw [Function.update_self]
    exact h.beside.other

theorem Ran.rest (h : Ran t s s' c conn w q) (hsh : Shares own t s) {fd : Int}
    (hfree : ∀ d dconn, Live s' d dconn → dconn.loop = l → dconn.world.conn.channel.fd ≠ fd) :
    (Function.update t.pollers conn.loop q l).channels fd = (own l).channels fd ∧
      (Function.update t.pollers conn.loop q l).interest fd = (own l).interest fd := by
  -- what no live connection has after the step, none but `c` had before it
  have hold (hc : conn.loop = l → conn.world.conn.channel.fd ≠ fd) :
      (t.pollers l).channels fd = (own l).channels fd ∧
        (t.pollers l).interest fd = (own l).interest fd := by
    refine hsh.rest l fd fun d dconn hd hloop => ?_
    by_cases hdc : d = c
    · subst hdc
      cases hd.1.symm.trans h.live.1
      exact hc hloop
    · exact hfree d dconn ((live_of_view (h.others d hdc)).mpr hd) hloop
  by_cases hloop : l = conn.loop
  · subst hloop
    rw [Function.update_self]
    by_cases hfd : fd = conn.world.conn.channel.fd
    · subst hfd
      have hgone : Destroyed s' c := by
        by_contra hn
        exact hfree c _ ⟨h.now, hn⟩ rfl h.beside.fd_eq
      obtain ⟨hc, hi⟩ := registered_new h.beside.other (h.removed hgone)
      obtain ⟨hc', hi'⟩ := hsh.foreign c conn h.live.1
      rw [h.beside.fd_eq] at hc hi
      exact ⟨hc.trans hc'.symm, hi.trans hi'.symm⟩
    · obtain ⟨hc, hi⟩ := h.beside.elsewhere fd hfd
      rw [hc, hi]
      exact hold fun _ => Ne.symm hfd
  · rw [Function.update_of_ne hloop]
    exact hold fun he => absurd he.symm hloop

theorem Ran.shares (h : Ran t s s' c conn w q) (hsh : Shares own t s) :
    Shares own ⟨bare s', Function.update t.pollers conn.loop q⟩ s' := by
  refine ⟨rfl, ?_, ?_, ?_, ?_, ?_⟩
  · intro d dconn hl
    obtain ⟨-, hd⟩ | ⟨rfl, rfl⟩ := h.cases hl
    · exact hsh.alone d dconn hd
    · exact h.beside.alone
  · intro d dconn hl
    exact h.shared hsh hl
  · intro d e dconn econn hl he hlt
    exact h.keeps.apart hsh hl he hlt
  · intro d dconn hd
    exact h.keeps.foreign hsh hd
  · intro l fd hfree
    exact h.rest hsh hfree

end Ran

end Shares

/-! ## Steps -/

/-- The kernel and the allocator give a new connection nothing that a live one or its loop
still has. A connection closes its descriptor and frees its channel when it is deleted, and until its
`ConnectDestroyed` has run somebody owns it. -/
def Fresh (own : Nat → EpollPoller) (s : TcpServer) : ServerStep → Prop
  | .newConnection addr sockfd _ => Unknown (own s.getNextLoop) sockfd ∧
      ∀ c < s.nextConnId, ∀ conn ∈ s.conns c, ¬Destroyed s c →
        conn.world.conn.channel.fd ≠ sockfd ∧ conn.world.conn.channel.addr ≠ addr
  | _ => True

instance (own : Nat → EpollPoller) (s : TcpServer) : DecidablePred (Fresh own s)
  | .newConnection _ _ _ => inferInstanceAs (Decidable (_ ∧ ∀ c < _, _))
  | .event _ _ _ => isTrue trivial
  | .functor _ _ _ => isTrue trivial
  | .call _ _ => isTrue trivial
  | .callFromOther _ _ => isTrue trivial

def Guard (own : Nat → EpollPoller) (s : TcpServer) (a : ServerStep) : Prop :=
  Enabled s a ∧ LeavesClosed s a ∧ WhileListed s a ∧ Fresh own s a

instance (own : Nat → EpollPoller) (s : TcpServer) : DecidablePred (Guard own s) :=
  fun _ => inferInstanceAs (Decidable (_ ∧ _ ∧ _ ∧ _))

section Steps

variable {own : Nat → EpollPoller} {t : SharedServer} {s s' : TcpServer} {c l : Nat} {conn : Conn}
  {a : ServerStep}

theorem lend_eq (h : t.server = bare s) (hc : s.conns c = some conn) :
    t.lend c = lent s c conn { conn.world with poller := t.pollers conn.loop } := by
  have hb : (bare s).conns c = some (setPoller emptyPoller conn) := by simp [bare, hc]
  unfold SharedServer.lend
  rw [h, hb]
  rfl

theorem takeBack_lent {w : World} {q : EpollPoller}
    (hs : s.conns c = some { conn with world := w }) :
    t.takeBack c (lent s c { conn with world := w } { w with poller := q }) =
      ⟨bare s, Function.update t.pollers conn.loop q⟩ := by
  have hu : (lent s c { conn with world := w } { w with poller := q }).conns c =
      some { conn with world := { w with poller := q } } := Function.update_self ..
  have hb : bare (lent s c { conn with world := w } { w with poller := q }) = bare s := by
    simp only [bare, lent]
    congr
    funext d
    by_cases hd : d = c
    · subst hd
      simp [hs, setPoller]
    · rw [Function.update_of_ne hd, Option.map_map]
      rfl
  simp only [SharedServer.takeBack, hu, hb]

/-- A step leaves the other connections alone. -/
theorem perform_others (hi : Inv s) (hnew : isNew a = false)
    (h : perform s a = .ok s') : ∀ d, d ≠ actor s a → view s' d = view s d := by
  cases a with
  | newConnection addr sockfd onUp => cases hnew
  | event c revents b =>
    cases hc : s.conns c with
    | none => simp [perform, hc] at h
    | some conn =>
      simp only [perform, hc] at h
      exact (touches_recordedRun hc (hi.names.unshared hc) h).others
  | functor l answer onRun =>
    cases hq : s.queues l with
    | nil => simp [perform, hq] at h
    | cons f rest =>
      simp only [perform, hq] at h
      obtain ⟨conn, stage, n, ha⟩ := hi.queued hq
      have hc : (pop s l rest).conns (LoopFunctor.conn f) = some conn := ha.tracked.created
      have hun := (pop_names hi hq).1.unshared hc
      have hto : Touches (pop s l rest) (LoopFunctor.conn f) s' := by
        cases f with
        | connectEstablished c =>
          change (pop s l rest).connectEstablished l c onRun = .ok s' at h
          exact touches_recordedRun hc hun h
        | removeConnectionInLoop c =>
          cases h
          exact touches_removeConnectionInLoop hc hun
        | connectDestroyed c =>
          change (pop s l rest).connectDestroyed l c onRun = .ok s' at h
          exact touches_recordedRun hc hun h
        | connection c g =>
          change (pop s l rest).runConnection l c (·.runFunctor answer onRun g) = .ok s' at h
          exact touches_runConnection hc hun h
      simp only [actor, hq]
      exact ((touches_pop hq rfl).trans hto).others
  | call c call =>
    cases hc : s.conns c with
    | none => simp [perform, hc] at h
    | some conn =>
      simp only [perform, hc] at h
      exact (touches_runConnection hc (hi.names.unshared hc) h).others
  | callFromOther c call =>
    cases hc : s.conns c with
    | none => simp [perform, hc] at h
    | some conn =>
      simp only [perform, hc] at h
      cases h
      exact (touches_store hc).others

theorem actor_created (hi : Inv s) (hen : Enabled s a)
    (hnew : isNew a = false) :
    ∃ conn, s.conns (actor s a) = some conn := by
  cases a with
  | newConnection addr sockfd onUp => cases hnew
  | event c revents b =>
    obtain ⟨conn, hc, -⟩ := hen
    exact ⟨conn, hc⟩
  | functor l answer onRun =>
    cases hq : s.queues l with
    | nil => exact absurd hq hen
    | cons f rest =>
      obtain ⟨conn, stage, n, ha⟩ := hi.queued hq
      refine ⟨conn, ?_⟩
      simp only [actor, hq]
      exact ha.tracked.created
  | call c call =>
    obtain ⟨conn, hc, -⟩ := hen
    exact ⟨conn, hc⟩
  | callFromOther c call =>
    obtain ⟨conn, hc, -⟩ := hen
    exact ⟨conn, hc⟩

/-! A destroyed connection -/

theorem destroyed_record {d : Nat} {m : Moment} (h : Destroyed s c) :
    Destroyed (s.record d l m) c := by
  obtain ⟨e, he, hm⟩ := List.mem_map.mp h
  have hmem : e ∈ (view (s.record d l m) c).log := by
    simp only [view, TcpServer.record, List.filter_append]
    exact List.mem_append_left _ he
  exact List.mem_map.mpr ⟨e, hmem, hm⟩

theorem destroyed_removeConnection (h : Destroyed s c) : Destroyed (s.removeConnection l c) c := by
  unfold TcpServer.removeConnection TcpServer.removeConnectionInLoop
  split
  · split
    · have hr : Destroyed (s.record c l .removeConnectionInLoop) c := destroyed_record h
      exact hr
    · exact h
  · exact h

theorem destroyed_runConnection {f : World → Except Fault World} (h : Destroyed s c)
    (hc : s.conns c = some conn) (hr : s.runConnection l c f = .ok s') : Destroyed s' c := by
  obtain ⟨w, -, rfl⟩ := runConnection_ok hc hr
  have hst : Destroyed (s.store c conn w) c := h
  split
  · exact destroyed_removeConnection (destroyed_record hst)
  · exact hst

/-- Once `ConnectDestroyed` has run, no functor of the protocol waits. -/
theorem gone_of_destroyed {stage : Stage} {n : Nat} (ha : At s c conn stage n)
    (hd : Destroyed s c) : stage = .gone := by
  cases stage with
  | created => exact absurd hd (undestroyed ha rfl).2
  | up => exact absurd hd (undestroyed ha rfl).2
  | closed => exact absurd hd (undestroyed ha rfl).2
  | erased =>
    rw [Destroyed, ha.tracked.history] at hd
    simp [Stage.moments, Stage.served] at hd
  | gone => rfl

/-- What still runs for a destroyed connection: its own functors and calls of the user. -/
theorem destroyed_step (hi : Inv s) (hg : Guard own s a) (hc : s.conns (actor s a) = some conn)
    (hd : Destroyed s (actor s a))
    (hnew : isNew a = false) :
    (∃ call, a = .call (actor s a) call ∧ Quiet conn.world [call]) ∨
      (∃ call, a = .callFromOther (actor s a) call) ∨
      ∃ l answer onRun g rest, a = .functor l answer onRun ∧
        s.queues l = .connection (actor s a) g :: rest ∧ Careful conn.world onRun g := by
  obtain ⟨stage, n, ha⟩ := hi.not_blank hc
  have hgone := gone_of_destroyed ha hd
  subst hgone
  have hs : Shut conn.world := ha.holds
  cases a with
  | newConnection addr sockfd onUp => cases hnew
  | event d revents b =>
    obtain ⟨⟨conn', hc', hw⟩, -⟩ := hg
    cases hc.symm.trans hc'
    exact absurd hw hs.unwatched
  | functor l answer onRun =>
    obtain ⟨hen, hl, -⟩ := hg
    cases hq : s.queues l with
    | nil => exact absurd hq hen
    | cons f rest =>
      have hact : actor s (.functor l answer onRun) = LoopFunctor.conn f := by simp only [actor, hq]
      rw [hact] at ha hc ⊢
      have hwait (hp : LoopFunctor.isProtocol f = true) : none = some (l, f) :=
        (ha.tracked.popProtocol hq rfl hp).1
      cases f with
      | connectEstablished d => cases hwait rfl
      | removeConnectionInLoop d => cases hwait rfl
      | connectDestroyed d => cases hwait rfl
      | connection d g =>
        have hcare : Careful conn.world onRun g :=
          hl (.connection d g) (by simp [hq]) conn hc
        exact .inr (.inr ⟨l, answer, onRun, g, rest, rfl, hq, hcare⟩)
  | call d call => exact .inl ⟨call, rfl, hg.2.1 conn hc hs.closed⟩
  | callFromOther d call => exact .inr (.inl ⟨call, rfl⟩)

theorem still_task {p : EpollPoller} {w v : World} (hi : Inv s) (hg : Guard own s a)
    (hc : s.conns (actor s a) = some conn) (hd : Destroyed s (actor s a))
    (hnew : isNew a = false)
    (h : Still p conn.world.conn w v) :
    Lockstep (Still p conn.world.conn) (task s w a) (task s v a) := by
  obtain ⟨stage, n, ha⟩ := hi.not_blank hc
  have hshut : Shut conn.world := shut_of_destroyed ha hd
  have hs : w.conn.state = .kDisconnected := h.2 ▸ hshut.closed
  have he : w.conn.channel.events = Events.kNoneEvent := h.2 ▸ hshut.noEvent
  obtain ⟨call, ha, hq⟩ | ⟨call, ha⟩ | ⟨l, answer, onRun, g, rest, ha, hq, hcare⟩ :=
    destroyed_step hi hg hc hd hnew
  · rw [ha]
    refine still_call hs he ?_ h
    rw [Quiet, h.2]
    exact hq
  · rw [ha]
    exact .ok (still_callFromOther call hs h)
  · rw [ha]
    simp only [task, hq]
    exact still_runFunctor hs he (careful_of_conn h.2 hshut.closed hcare) h

theorem destroyed_stays (hi : Inv s) (hg : Guard own s a) (hc : s.conns (actor s a) = some conn)
    (hd : Destroyed s (actor s a))
    (hnew : isNew a = false)
    (h : perform s a = .ok s') : Destroyed s' (actor s a) := by
  obtain ⟨call, ha, -⟩ | ⟨call, ha⟩ | ⟨l, answer, onRun, g, rest, ha, hq, -⟩ :=
    destroyed_step hi hg hc hd hnew
  · rw [ha] at h
    simp only [perform, hc] at h
    exact destroyed_runConnection hd hc h
  · rw [ha] at h
    simp only [perform, hc] at h
    cases h
    exact hd
  · rw [ha] at h
    simp only [perform, hq] at h
    change (pop s l rest).runConnection l (actor s a) (·.runFunctor answer onRun g) = .ok s' at h
    exact destroyed_runConnection (s := pop s l rest) hd hc h

/-! Any connection -/

/-- A step of a connection that exists. -/
theorem perform_shares (hsh : Shares own t s) (hl : Lives s) (hg : Guard own s a)
    (hnew : isNew a = false) :
    Lockstep (fun s' t' => Shares own t' s') (perform s a) (t.perform a) := by
  obtain ⟨conn, hc⟩ := actor_created hl.inv hg.1 hnew
  have hact : actor t.server a = actor s a := by
    rw [hsh.server]
    cases a <;> rfl
  have hperform : t.perform a = (do
      let u ← perform (t.lend (actor s a)) a
      return t.takeBack (actor s a) u) := by
    rw [← hact]
    cases a with
    | newConnection addr sockfd onUp => cases hnew
    | _ => rfl
  rw [hperform, lend_eq hsh.server hc]
  have hothers (s' : TcpServer) (hp : perform s a = .ok s') := perform_others hl.inv hnew hp
  by_cases hd : Destroyed s (actor s a)
  · have hstep := lent_perform (still_apart (t.pollers conn.loop) conn.world.conn) rfl hnew
      (fun w v h => still_task hl.inv hg hc hd hnew h)
      ⟨conn.world, { conn.world with poller := t.pollers conn.loop }, ⟨rfl, rfl⟩, hc, rfl⟩
    refine hstep.map_right fun s' u hp hu => ?_
    obtain ⟨w, v, ⟨rfl, hw⟩, hs', rfl⟩ := hu
    rw [takeBack_lent hs', Function.update_eq_self]
    have hk : Keeps s s' := keeps_of_others hc hs' (by rw [hw]) (by rw [hw])
      (fun hd => destroyed_stays hl.inv hg hc hd hnew hp) (hothers s' hp)
    exact shares_of_destroyed hsh hk hd (hothers s' hp)
  · have hlive : Live s (actor s a) conn := ⟨hc, hd⟩
    have hstep := lent_perform (alongside_apart conn.world.conn.channel.addr
      conn.world.conn.channel.fd (t.pollers conn.loop)) rfl hnew (fun w v h => alongside_task s a h)
      ⟨conn.world, { conn.world with poller := t.pollers conn.loop },
        ⟨t.pollers conn.loop, rfl, rfl, rfl, hsh.alone _ _ hlive, hsh.shared _ _ hlive,
          fun _ _ => ⟨rfl, rfl⟩⟩, hc, rfl⟩
    refine hstep.map_right fun s' u hp hu => ?_
    obtain ⟨w, v, ⟨q, rfl, hb⟩, hs', rfl⟩ := hu
    have hl' : Lives s' := step_lives hl ⟨⟨hg.1, hp⟩, hg.2.1, hg.2.2.1⟩
    rw [takeBack_lent hs']
    have hran : Ran t s s' (actor s a) conn w q :=
      ⟨hlive, hs', hothers s' hp, hb, fun hd' => hl'.removed _ hd' _ hs'⟩
    exact hran.shares hsh

/-! A new connection -/

theorem bare_enterConnection (s : TcpServer) (addr : Nat) (sockfd : Int) :
    (bare s).enterConnection addr sockfd = bare (s.enterConnection addr sockfd) := by
  simp only [TcpServer.enterConnection, bare, bare_update]
  rfl

/-- The connections that are live once a new one is entered. -/
theorem enterConnection_live {addr : Nat} {sockfd : Int} {d : Nat} {dconn : Conn} (hi : Inv s)
    (hb : s.nextConnId < 2 ^ 31) (h : Live (s.enterConnection addr sockfd) d dconn) :
    (d ≠ s.nextConnId ∧ Live s d dconn) ∨ (d = s.nextConnId ∧ dconn = s.newConn addr sockfd) := by
  by_cases hd : d = s.nextConnId
  · subst hd
    exact .inr ⟨rfl, Option.some.inj (h.1.symm.trans (Function.update_self ..))⟩
  · exact .inl ⟨hd, (live_of_view (enterConnection_others hi.names hb hd)).mp h⟩

theorem enterConnection_shares {addr : Nat} {sockfd : Int} {onUp : List Call} (hsh : Shares own t s)
    (hi : Inv s) (hg : Guard own s (.newConnection addr sockfd onUp)) :
    Shares own (t.enterConnection addr sockfd) (s.enterConnection addr sockfd) := by
  have hb : s.nextConnId < 2 ^ 31 := hg.1
  have hunknown : Unknown (own s.getNextLoop) sockfd := hg.2.2.2.1
  have hfresh (d : Nat) (dconn : Conn) (hl : Live s d dconn) :
      dconn.world.conn.channel.fd ≠ sockfd ∧ dconn.world.conn.channel.addr ≠ addr :=
    hg.2.2.2.2 d (hi.names.created d (by simp [hl.1])) dconn hl.1 hl.2
  have hold (d : Nat) (dconn : Conn) (hl : Live s d dconn) :
      Live (s.enterConnection addr sockfd) d dconn := by
    have hd : d ≠ s.nextConnId := by
      have hlt := hi.names.created d (by simp [hl.1])
      omega
    exact (live_of_view (enterConnection_others hi.names hb hd)).mpr hl
  refine ⟨?_, ?_, ?_, ?_, ?_, ?_⟩
  · change t.server.enterConnection addr sockfd = _
    rw [hsh.server]
    exact bare_enterConnection s addr sockfd
  · intro d dconn hl
    obtain ⟨-, hd⟩ | ⟨-, rfl⟩ := enterConnection_live hi hb hl
    · exact hsh.alone d dconn hd
    · exact .new rfl rfl rfl
  · intro d dconn hl
    obtain ⟨-, hd⟩ | ⟨-, rfl⟩ := enterConnection_live hi hb hl
    · exact hsh.shared d dconn hd
    · obtain ⟨hc, hk⟩ := hsh.rest s.getNextLoop sockfd fun e econn he _ => (hfresh e econn he).1
      exact .new rfl (hc.trans hunknown.1) (hk.trans hunknown.2)
  · intro d e dconn econn hl he hlt
    have hle : e ≤ s.nextConnId :=
      Nat.lt_succ_iff.mp ((enterConnection_names addr sockfd hi.names hb).created e (by simp [he]))
    obtain ⟨-, hd⟩ | ⟨rfl, -⟩ := enterConnection_live hi hb hl
    · by_cases hen : e = s.nextConnId
      · subst hen
        cases he.symm.trans (Function.update_self ..)
        exact hfresh d dconn hd
      · have hsame : (s.enterConnection addr sockfd).conns e = s.conns e :=
          Function.update_of_ne hen ..
        exact hsh.apart d e _ _ hd (hsame ▸ he) hlt
    · exact absurd hlt (Nat.not_lt.mpr hle)
  · intro d dconn hd
    by_cases hdn : d = s.nextConnId
    · subst hdn
      cases hd.symm.trans (Function.update_self ..)
      exact hunknown
    · have hsame : (s.enterConnection addr sockfd).conns d = s.conns d :=
        Function.update_of_ne hdn ..
      exact hsh.foreign d dconn (hsame ▸ hd)
  · intro l fd hfree
    exact hsh.rest l fd fun d dconn hl => hfree d dconn (hold d dconn hl)

theorem newConnection_shares {addr : Nat} {sockfd : Int} {onUp : List Call} (hsh : Shares own t s)
    (hl : Lives s) (hg : Guard own s (.newConnection addr sockfd onUp)) :
    Lockstep (fun s' t' => Shares own t' s') (s.newConnection addr sockfd onUp)
      (t.newConnection addr sockfd onUp) := by
  have hb : s.nextConnId < 2 ^ 31 := hg.1
  have ht := enterConnection_tracked addr sockfd hl.inv.fresh
  have hun := (enterConnection_names addr sockfd hl.inv.names hb).unshared ht.created
  have hsh' := enterConnection_shares hsh hl.inv hg
  have hlive : Live (s.enterConnection addr sockfd) s.nextConnId (s.newConn addr sockfd) := by
    refine ⟨ht.created, ?_⟩
    rw [Destroyed, ht.history]
    simp
  have hlent : Lent (Alongside addr sockfd (t.pollers s.getNextLoop)) s.nextConnId
      (s.newConn addr sockfd) (s.enterConnection addr sockfd)
      ((t.enterConnection addr sockfd).lend s.nextConnId) := by
    refine ⟨(s.newConn addr sockfd).world, _, ⟨t.pollers s.getNextLoop, rfl, rfl, rfl,
      hsh'.alone _ _ hlive, hsh'.shared _ _ hlive, fun _ _ => ⟨rfl, rfl⟩⟩, ht.created, ?_⟩
    exact lend_eq hsh'.server ht.created
  have hnext : t.server.nextConnId = s.nextConnId := by rw [hsh.server]; rfl
  have hloop : t.server.getNextLoop = s.getNextLoop := by rw [hsh.server]; rfl
  unfold SharedServer.newConnection
  rw [hnext, hloop]
  have hstep : Lockstep (Lent (Alongside addr sockfd (t.pollers s.getNextLoop)) s.nextConnId
      (s.newConn addr sockfd)) (s.newConnection addr sockfd onUp)
      (SharedServer.runEstablished ((t.enterConnection addr sockfd).lend s.nextConnId)
        s.getNextLoop s.nextConnId onUp) := by
    refine .ite (fun _ => ?_) fun _ => .ok ?_
    · exact lent_runConnection (alongside_apart _ _ _)
        (fun w v h => alongside_connectEstablished onUp h)
        (hlent.map (·.record s.nextConnId 0 .connectEstablished) (fun _ _ _ => rfl) rfl)
    · exact hlent.map (·.queueInLoop s.getNextLoop (.connectEstablished s.nextConnId))
        (fun _ _ _ => rfl) rfl
  refine hstep.map_right fun s' u hp hu => ?_
  obtain ⟨w, v, ⟨q, rfl, hb'⟩, hs', rfl⟩ := hu
  have hl' : Lives s' := step_lives (a := .newConnection addr sockfd onUp) hl
    ⟨⟨hg.1, hp⟩, hg.2.1, hg.2.2.1⟩
  have hothers : ∀ d, d ≠ s.nextConnId → view s' d = view (s.enterConnection addr sockfd) d := by
    unfold TcpServer.newConnection at hp
    split at hp
    · exact (touches_recordedRun ht.created hun hp).others
    · cases hp
      intro d hd
      exact (touches_queueInLoop _ rfl).others d hd
  rw [takeBack_lent hs']
  have hran : Ran (t.enterConnection addr sockfd) (s.enterConnection addr sockfd) s' s.nextConnId
      (s.newConn addr sockfd) w q :=
    ⟨hlive, hs', hothers, hb', fun hd => hl'.removed _ hd _ hs'⟩
  exact hran.shares hsh'

end Steps

/-! ## When a step may be taken -/

/-- An event goes to the channel that `channels_` has for its descriptor, which is the one
that was created last at its address. -/
def Addressed (t : SharedServer) : ServerStep → Prop
  | .event c _ _ => ∀ conn ∈ t.server.conns c,
      (t.pollers conn.loop).channels conn.world.conn.channel.fd =
        some conn.world.conn.channel.addr ∧
      ∀ d < t.server.nextConnId, c < d → ∀ dconn ∈ t.server.conns d,
        dconn.world.conn.channel.addr ≠ conn.world.conn.channel.addr
  | _ => True

/-- The guards as a connection finds them on the poller of its loop. -/
def SharedServer.Guard (own : Nat → EpollPoller) (t : SharedServer) (a : ServerStep) : Prop :=
  SharedPoller.Guard own (t.lend (actor t.server a)) a ∧ Addressed t a

section Guards

variable {own : Nat → EpollPoller} {t : SharedServer} {s u : TcpServer} {c : Nat} {conn : Conn}
  {a : ServerStep}

theorem bare_lend (h : t.server = bare s) : bare (t.lend c) = bare s := by
  unfold SharedServer.lend
  rw [h]
  simp only [bare]
  congr
  funext d
  by_cases hd : d = c
  · subst hd
    rw [Function.update_self, Option.map_map, Option.map_map]
    rfl
  · rw [Function.update_of_ne hd, Option.map_map]
    rfl

/-- Servers that differ in pollers alone have the same connections. -/
theorem twin (h : bare u = bare s) (hc : u.conns c = some conn) :
    ∃ conn', s.conns c = some conn' ∧ conn'.name = conn.name ∧ conn'.loop = conn.loop ∧
      conn'.world.conn = conn.world.conn := by
  have hmap : (u.conns c).map (setPoller emptyPoller) = (s.conns c).map (setPoller emptyPoller) :=
    congrFun (congrArg TcpServer.conns h) c
  rw [hc] at hmap
  obtain ⟨conn', hs, he⟩ := Option.map_eq_some_iff.mp hmap.symm
  refine ⟨conn', hs, ?_, ?_, ?_⟩
  · have hname := congrArg Conn.name he
    exact hname
  · have hloop := congrArg Conn.loop he
    exact hloop
  · have hconn := congrArg (fun x : Conn => x.world.conn) he
    exact hconn

theorem fresh_of_bare (h : bare u = bare s) (hf : Fresh own s a) : Fresh own u a := by
  cases a with
  | newConnection addr sockfd onUp =>
    have hloop : (bare u).getNextLoop = (bare s).getNextLoop := by rw [h]
    change u.getNextLoop = s.getNextLoop at hloop
    refine ⟨hloop ▸ hf.1, ?_⟩
    intro c hlt conn hc hd
    obtain ⟨conn', hc', -, -, hw⟩ := twin h hc
    have hlog : history u c = history s c :=
      congrArg (fun l => (l.filter fun e => e.conn = c).map LogEntry.moment)
        (congrArg TcpServer.log h)
    have hnext : (bare u).nextConnId = (bare s).nextConnId := by rw [h]
    change u.nextConnId = s.nextConnId at hnext
    rw [← hw]
    rw [Destroyed, hlog] at hd
    exact hf.2 c (hnext ▸ hlt) conn' hc' hd
  | event c revents b => exact trivial
  | functor l answer onRun => exact trivial
  | call c call => exact trivial
  | callFromOther c call => exact trivial

theorem listed_of_bare (h : bare u = bare s)
    (hl : ∃ conn ∈ s.conns c, s.connections conn.name = some c) :
    ∃ conn ∈ u.conns c, u.connections conn.name = some c := by
  obtain ⟨conn, hc, he⟩ := hl
  obtain ⟨conn', hc', hname, -⟩ := twin h.symm hc
  have htable : (bare u).connections = (bare s).connections := by rw [h]
  refine ⟨conn', hc', ?_⟩
  rw [hname]
  exact (congrFun htable conn.name).trans he

theorem whileListed_of_bare (h : bare u = bare s) (hl : WhileListed s a) : WhileListed u a := by
  cases a with
  | callFromOther c call =>
    cases call with
    | startRead => exact listed_of_bare h hl
    | stopRead => exact listed_of_bare h hl
    | send data answer => exact trivial
    | shutdown => exact trivial
    | forceClose => exact trivial
  | newConnection addr sockfd onUp => exact trivial
  | event c revents b => exact trivial
  | functor l answer onRun => exact trivial
  | call c call => exact trivial

/-- Two pollers that hold a channel in the same state agree on whether it is watched. -/
theorem registered_watched {p q : EpollPoller} {ch : Channel} (hp : Registered p ch)
    (hq : Registered q ch) (h : p.interest ch.fd ≠ none) :
    q.interest ch.fd ≠ none ∧ q.channels ch.fd = some ch.addr := by
  cases hp with
  | new _ _ hk => exact absurd hk h
  | deleted _ _ hk => exact absurd hk h
  | added hi _ _ =>
    cases hq with
    | new hn => exact absurd (hi.symm.trans hn) (by decide)
    | deleted hn => exact absurd (hi.symm.trans hn) (by decide)
    | added _ hc hk => exact ⟨by simp [hk], hc⟩

theorem live_of_open {w : World} (hl : Lives s) (hc : s.conns c = some conn)
    (hw : w.conn = conn.world.conn) (ho : w.isOpen = true) : Live s c conn := by
  refine ⟨hc, fun hd => ?_⟩
  obtain ⟨stage, n, ha⟩ := hl.inv.not_blank hc
  have hs := shut_of_destroyed ha hd
  simp [World.isOpen, hw, hs.closed] at ho

theorem lend_conns (h : t.server = bare s) {x : Conn} :
    (t.lend c).conns c = some x ↔
      ∃ conn, s.conns c = some conn ∧ x = setPoller (t.pollers conn.loop) conn := by
  have hu : (t.lend c).conns c =
      (s.conns c).map fun conn => setPoller (t.pollers conn.loop) conn := by
    unfold SharedServer.lend
    rw [h]
    simp only [bare, Function.update_self, Option.map_map]
    rfl
  rw [hu, Option.map_eq_some_iff]
  constructor
  · rintro ⟨conn, hc, rfl⟩
    exact ⟨conn, hc, rfl⟩
  · rintro ⟨conn, hc, rfl⟩
    exact ⟨conn, hc, rfl⟩

/-- An event that the loop's poller reports for a connection is one for a live connection. -/
theorem live_of_addressed {revents : Events} {b : Answers} (hsh : Shares own t s) (hi : Inv s)
    (hc : s.conns c = some conn)
    (hw : (t.pollers conn.loop).interest conn.world.conn.channel.fd ≠ none)
    (ha : Addressed t (.event c revents b)) : Live s c conn := by
  refine ⟨hc, fun hd => ?_⟩
  have hin : setPoller emptyPoller conn ∈ t.server.conns c := by
    rw [hsh.server]
    simp [bare, hc]
  obtain ⟨hentry, hlast⟩ := ha _ hin
  -- the entry belongs to a live connection with the same descriptor
  obtain ⟨d, dconn, hl, hloop, hfd⟩ : ∃ d dconn, Live s d dconn ∧ dconn.loop = conn.loop ∧
      dconn.world.conn.channel.fd = conn.world.conn.channel.fd := by
    by_contra hn
    have hrest := hsh.rest conn.loop _ fun d dconn hl hloop hfd => hn ⟨d, dconn, hl, hloop, hfd⟩
    exact hw (hrest.2.trans (hsh.foreign c conn hc).2)
  have hdc : d ≠ c := by
    rintro rfl
    exact hl.2 hd
  rcases Nat.lt_or_gt_of_ne hdc with hlt | hlt
  · exact (hsh.apart d c dconn conn hl hc hlt).1 hfd
  · have hreg := hsh.shared d dconn hl
    rw [hloop] at hreg
    have hown := (registered_watched hreg hreg (hfd ▸ hw)).2
    rw [hfd] at hown
    have hdin : setPoller emptyPoller dconn ∈ t.server.conns d := by
      rw [hsh.server]
      simp [bare, hl.1]
    have hbound : d < t.server.nextConnId := by
      rw [hsh.server]
      exact hi.names.created d (by simp [hl.1])
    exact hlast d hbound hlt _ hdin (Option.some.inj (hown.symm.trans hentry))

/-- A live connection is watched on the poller of its loop as on its own. -/
theorem watched_shared (hsh : Shares own t s) (hl : Live s c conn) :
    Watched (setPoller (t.pollers conn.loop) conn).world ↔ Watched conn.world :=
  ⟨fun h => (registered_watched (hsh.shared c conn hl) (hsh.alone c conn hl) h).1,
    fun h => (registered_watched (hsh.alone c conn hl) (hsh.shared c conn hl) h).1⟩

theorem addressed_of_watched {revents : Events} {b : Answers} (hsh : Shares own t s)
    (hl : Live s c conn) (hw : Watched conn.world) : Addressed t (.event c revents b) := by
  have hentry := (registered_watched (hsh.alone c conn hl) (hsh.shared c conn hl) hw).2
  intro conn' hc'
  rw [hsh.server] at hc' ⊢
  have hc : conn' = setPoller emptyPoller conn := by simpa [bare, hl.1] using hc'.symm
  subst hc
  refine ⟨hentry, fun d _ hlt dconn hd => ?_⟩
  obtain ⟨dconn', hd', rfl⟩ := Option.map_eq_some_iff.mp hd
  exact Ne.symm (hsh.apart c d conn dconn' hl hd' hlt).2

theorem enabled_lend (hsh : Shares own t s) (hl : Lives s) :
    Enabled (t.lend (actor t.server a)) a ∧ Addressed t a ↔ Enabled s a := by
  have hbare (c : Nat) : bare (t.lend c) = bare s := bare_lend hsh.server
  have hstarted (c : Nat) : (∃ conn ∈ (t.lend c).conns c, conn.world.conn.state ≠ .kConnecting) ↔
      ∃ conn ∈ s.conns c, conn.world.conn.state ≠ .kConnecting := by
    constructor
    · rintro ⟨conn, hc, hs⟩
      obtain ⟨conn', hc', -, -, hw⟩ := twin (hbare c) hc
      exact ⟨conn', hc', hw ▸ hs⟩
    · rintro ⟨conn, hc, hs⟩
      obtain ⟨conn', hc', -, -, hw⟩ := twin (hbare c).symm hc
      exact ⟨conn', hc', hw ▸ hs⟩
  cases a with
  | newConnection addr sockfd onUp =>
    have hnext : t.server.nextConnId = s.nextConnId := by rw [hsh.server]; rfl
    change t.server.nextConnId < 2 ^ 31 ∧ True ↔ s.nextConnId < 2 ^ 31
    rw [hnext, and_true]
  | event c revents b =>
    constructor
    · rintro ⟨⟨x, hx, hw⟩, ha⟩
      obtain ⟨conn, hc, rfl⟩ := (lend_conns hsh.server).mp hx
      have hlive := live_of_addressed hsh hl.inv hc hw ha
      exact ⟨conn, hc, (watched_shared hsh hlive).mp hw⟩
    · rintro ⟨conn, hc, hw⟩
      have hlive : Live s c conn := by
        refine ⟨hc, fun hd => ?_⟩
        obtain ⟨stage, n, ha⟩ := hl.inv.not_blank hc
        exact (shut_of_destroyed ha hd).unwatched hw
      refine ⟨⟨_, (lend_conns hsh.server).mpr ⟨conn, hc, rfl⟩, ?_⟩,
        addressed_of_watched hsh hlive hw⟩
      exact (watched_shared hsh hlive).mpr hw
  | functor l answer onRun =>
    have hq : t.server.queues = s.queues := by rw [hsh.server]; rfl
    change t.server.queues l ≠ [] ∧ True ↔ s.queues l ≠ []
    rw [hq, and_true]
  | call c call => exact (and_iff_left trivial).trans (hstarted c)
  | callFromOther c call => exact (and_iff_left trivial).trans (hstarted c)

theorem leavesClosed_lend (hsh : Shares own t s) (hl : Lives s) :
    LeavesClosed (t.lend (actor t.server a)) a ↔ LeavesClosed s a := by
  cases a with
  | newConnection addr sockfd onUp => exact Iff.rfl
  | event c revents b =>
    constructor
    · intro h conn hc
      exact h (setPoller (t.pollers conn.loop) conn) ((lend_conns hsh.server).mpr ⟨conn, hc, rfl⟩)
    · intro h x hx
      obtain ⟨conn, hc, rfl⟩ := (lend_conns hsh.server).mp hx
      exact h conn hc
  | functor l answer onRun =>
    have hq : t.server.queues = s.queues := by rw [hsh.server]; rfl
    have hcare (c : Nat) (conn : Conn) (g : PendingFunctor) (hc : s.conns c = some conn) :
        Careful (setPoller (t.pollers conn.loop) conn).world onRun g ↔
          Careful conn.world onRun g := by
      constructor
      · refine careful_twin rfl fun ho hw => ?_
        exact (watched_shared hsh (live_of_open hl hc rfl ho)).mp hw
      · refine careful_twin rfl fun ho hw => ?_
        exact (watched_shared hsh (live_of_open hl hc rfl ho)).mpr hw
    change (∀ f ∈ (t.server.queues l).head?,
      CarefulFunctor (t.lend (actor t.server (.functor l answer onRun))) onRun f) ↔
        ∀ f ∈ (s.queues l).head?, CarefulFunctor s onRun f
    rw [hq]
    cases hql : s.queues l with
    | nil => simp
    | cons f rest =>
      simp only [List.head?_cons, Option.mem_def, Option.some.injEq, forall_eq']
      cases f with
      | connectEstablished c => exact Iff.rfl
      | removeConnectionInLoop c => exact Iff.rfl
      | connectDestroyed c => exact Iff.rfl
      | connection c g =>
        have hact : actor t.server (.functor l answer onRun) = c := by
          simp only [actor, hq, hql, LoopFunctor.conn]
        rw [hact]
        constructor
        · intro h conn hc
          exact (hcare c conn g hc).mp (h _ ((lend_conns hsh.server).mpr ⟨conn, hc, rfl⟩))
        · intro h x hx
          obtain ⟨conn, hc, rfl⟩ := (lend_conns hsh.server).mp hx
          exact (hcare c conn g hc).mpr (h conn hc)
  | call c call =>
    constructor
    · intro h conn hc
      exact h (setPoller (t.pollers conn.loop) conn) ((lend_conns hsh.server).mpr ⟨conn, hc, rfl⟩)
    · intro h x hx
      obtain ⟨conn, hc, rfl⟩ := (lend_conns hsh.server).mp hx
      exact h conn hc
  | callFromOther c call => exact Iff.rfl

theorem guard_iff (hsh : Shares own t s) (hl : Lives s) : t.Guard own a ↔ Guard own s a := by
  have hbare := bare_lend (c := actor t.server a) hsh.server
  have hen := enabled_lend (a := a) hsh hl
  have hleave := leavesClosed_lend (a := a) hsh hl
  have hlist : WhileListed (t.lend (actor t.server a)) a ↔ WhileListed s a :=
    ⟨whileListed_of_bare hbare.symm, whileListed_of_bare hbare⟩
  have hfresh : Fresh own (t.lend (actor t.server a)) a ↔ Fresh own s a :=
    ⟨fresh_of_bare hbare.symm, fresh_of_bare hbare⟩
  rw [SharedServer.Guard, Guard, Guard, ← hen, hleave, hlist, hfresh]
  tauto

end Guards

/-! ## Runs -/

def PrivateStep (own : Nat → EpollPoller) (s : TcpServer) (a : ServerStep) (s' : TcpServer) : Prop :=
  Guard own s a ∧ perform s a = .ok s'

def SharedStep (own : Nat → EpollPoller) (t : SharedServer) (a : ServerStep) (t' : SharedServer) : Prop :=
  t.Guard own a ∧ t.perform a = .ok t'

section Runs

variable {own : Nat → EpollPoller} {t : SharedServer} {s s' : TcpServer} {a : ServerStep}

theorem step_shares (hsh : Shares own t s) (hl : Lives s) (hg : Guard own s a) :
    Lockstep (fun s' t' => Shares own t' s') (perform s a) (t.perform a) := by
  cases a with
  | newConnection addr sockfd onUp => exact newConnection_shares hsh hl hg
  | _ => exact perform_shares hsh hl hg rfl

theorem privateStep_lives (hl : Lives s) (hs : PrivateStep own s a s') : Lives s' :=
  step_lives hl ⟨⟨hs.1.1, hs.2⟩, hs.1.2.1, hs.1.2.2.1⟩

theorem shares_new (listenAddr : InetAddress) (nameArg : List Char) (wc : Bool) (loops : Nat) :
    Shares own (SharedServer.new listenAddr nameArg wc loops own)
      (TcpServer.new listenAddr nameArg wc loops) := by
  have hnone (c : Nat) (conn : Conn) :
      ¬Live (TcpServer.new listenAddr nameArg wc loops) c conn := by
    intro hl
    cases hl.1
  refine ⟨rfl, ?_, ?_, ?_, ?_, ?_⟩
  · intro c conn hl
    exact absurd hl (hnone c conn)
  · intro c conn hl
    exact absurd hl (hnone c conn)
  · intro c d conn dconn hl
    exact absurd hl (hnone c conn)
  · intro c conn hc
    cases hc
  · intro l fd _
    exact ⟨rfl, rfl⟩

/-- A step of the server with shared pollers is a step of the other one. -/
theorem private_of_shared {t' : SharedServer} (h : Shares own t s ∧ Lives s)
    (hs : SharedStep own t a t') : ∃ s', PrivateStep own s a s' ∧ Shares own t' s' ∧ Lives s' := by
  have hg := (guard_iff h.1 h.2).mp hs.1
  obtain ⟨s', hp, hsh⟩ := (step_shares h.1 h.2 hg).of_right hs.2
  exact ⟨s', ⟨hg, hp⟩, hsh, privateStep_lives h.2 ⟨hg, hp⟩⟩

theorem shared_of_private (h : Shares own t s ∧ Lives s) (hs : PrivateStep own s a s') :
    ∃ t', SharedStep own t a t' ∧ Shares own t' s' ∧ Lives s' := by
  obtain ⟨t', hp, hsh⟩ := (step_shares h.1 h.2 hs.1).of_left hs.2
  exact ⟨t', ⟨(guard_iff h.1 h.2).mpr hs.1, hp⟩, hsh, privateStep_lives h.2 hs⟩

end Runs

/-- A server whose loops have one poller each takes the same steps as one whose connections
have a poller each, although descriptors and addresses are used again: every run of one is a
run of the other. In all states on the way a loop's poller and the kernel hold the channels of
its live connections, each in the state of its index, and the loop's own ones as they were. -/
theorem pollers_shared (listenAddr : InetAddress) (nameArg : List Char) (writeComplete : Bool)
    (loops : Nat) (own : Nat → EpollPoller) (steps : List ServerStep) :
    (∀ t, Run (SharedStep own) (SharedServer.new listenAddr nameArg writeComplete loops own)
      steps t → ∃ s, Run (PrivateStep own) (TcpServer.new listenAddr nameArg writeComplete loops)
        steps s ∧ Shares own t s) ∧
    ∀ s, Run (PrivateStep own) (TcpServer.new listenAddr nameArg writeComplete loops) steps s →
      ∃ t, Run (SharedStep own) (SharedServer.new listenAddr nameArg writeComplete loops own)
        steps t ∧ Shares own t s := by
  have hstart : Shares own (SharedServer.new listenAddr nameArg writeComplete loops own)
      (TcpServer.new listenAddr nameArg writeComplete loops) :=
    shares_new listenAddr nameArg writeComplete loops
  have hlives := lives_new listenAddr nameArg writeComplete loops
  constructor
  · intro t hr
    obtain ⟨s, hrs, hsh, -⟩ := hr.matched (A := SharedStep own) (B := PrivateStep own)
      (I := fun t s => Shares own t s ∧ Lives s)
      (fun _ _ _ _ h hs => private_of_shared h hs) ⟨hstart, hlives⟩
    exact ⟨s, hrs, hsh⟩
  · intro s hr
    obtain ⟨t, hrt, hsh, -⟩ := hr.matched (A := PrivateStep own) (B := SharedStep own)
      (I := fun s t => Shares own t s ∧ Lives s)
      (fun _ _ _ _ h hs => shared_of_private h hs) ⟨hstart, hlives⟩
    exact ⟨t, hrt, hsh⟩

/-- The eventfd of every loop: descriptor 4, with its channel at address 9. -/
def eventfdOnly : Nat → EpollPoller := fun _ =>
  ⟨fun fd => if fd = 4 then some 9 else none, fun fd => if fd = 4 then some .kReadEvent else none⟩

/-- The second connection gets the descriptor and the address of the first one, which the peer
has closed, and is registered in its place. -/
theorem descriptor_used_again :
    ∃ t, Run (SharedStep eventfdOnly)
        (SharedServer.new ⟨127, 0, 0, 1, 8000⟩ ['e', 'c', 'h', 'o'] false 0 eventfdOnly)
        [.newConnection 1 5 [], .event 1 .kReadEvent ⟨.received [], .count 0, [], []⟩,
          .functor 0 (.count 0) [], .newConnection 1 5 []] t ∧
      (t.pollers 0).channels 5 = some 1 ∧ (t.pollers 0).interest 5 = some .kReadEvent := by
  have hok : (Run.exec (Guard eventfdOnly) perform
      (TcpServer.new ⟨127, 0, 0, 1, 8000⟩ ['e', 'c', 'h', 'o'] false 0)
      [.newConnection 1 5 [], .event 1 .kReadEvent ⟨.received [], .count 0, [], []⟩,
        .functor 0 (.count 0) [], .newConnection 1 5 []]).map
      (fun s => ((s.conns 2).map fun conn => (conn.loop, conn.world.conn.channel),
        decide (Destroyed s 2))) =
      some (some (0, ⟨1, 5, .kReadEvent, kAdded⟩), false) := by decide +kernel
  obtain ⟨s, hs, hq⟩ := Option.map_eq_some_iff.mp hok
  rw [Prod.mk.injEq, Option.map_eq_some_iff, decide_eq_false_iff_not] at hq
  obtain ⟨⟨conn, hc, hch⟩, hd⟩ := hq
  rw [Prod.mk.injEq] at hch
  obtain ⟨t, hr, hsh⟩ := (pollers_shared _ _ _ _ _ _).2 s (Run.of_exec hs)
  have hreg := hsh.shared 2 conn ⟨hc, hd⟩
  rw [hch.1, hch.2] at hreg
  refine ⟨t, hr, ?_⟩
  cases hreg with
  | new hi => exact absurd hi (by decide)
  | deleted hi => exact absurd hi (by decide)
  | added _ he hk => exact ⟨he, hk⟩

end RyanNetwork.Tcp.SharedPoller
