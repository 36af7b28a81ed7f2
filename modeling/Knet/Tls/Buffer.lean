import Knet.Tcp.Buffer
import Knet.Tls.Socket

/-!
# The receive buffer of a TLS socket

`process_data` and `do_read` of `TlsSocket` are those of `TcpSocket`. What differs is where a
session begins: with the handshake, when it is the first that succeeds, and with `init_read` from
then on. Neither empties the buffer.
-/

namespace Knet.Tls

open Knet.Tcp
open TcpSocket (Sessions Intact Kept Cuts)

namespace TlsSocket

variable {cfg : Config} {s t : TlsSocket} {h : Sessions}

/-- The plain part when `do_read` is called after a handshake. -/
def shaken (s : TlsSocket) : TcpSocket := { s.sock with log := s.sock.log ++ [.handled .connect] }

/-- The sessions after a step. `init_read` begins none while there has been no handshake. -/
def watch (cfg : Config) (s : TlsSocket) (a : Action) (h : Sessions) : Sessions :=
  match a with
  | .base .initRead => if s.sslShakehand then s.sock.watch cfg .initRead h else h
  | .base (.connectDone true) =>
    if s.sslShakehand then s.sock.watch cfg (.connectDone true) h else h
  | .base a => s.sock.watch cfg a h
  | .handshakeDone true => (h.begin s.sock.log).upTo (s.shaken.doReadCloses cfg)
  | .handshakeDone false => h

/-- The socket, with an observer who keeps its sessions. -/
def watched (cfg : Config) : StepSystem (TlsSocket × Sessions) Action :=
  (system cfg).observe (watch cfg)

/-- What a step needs: what it needs on a plain socket, where a session begins with a handshake or
with a connect after one. -/
def InPlace (cfg : Config) (w : TlsSocket × Sessions) : Action → Prop
  | .base .initRead | .base (.connectDone true) =>
    w.1.sslShakehand = true → w.1.sock.connection = true → w.1.sock.readBufferPos = 0
  | .base a => TcpSocket.InPlace cfg (w.1.sock, w.2) a
  | .handshakeDone ok => ok = true → w.1.sock.readBufferPos = 0

/-- The other steps of the plain part are watched as those of a plain socket. -/
theorem watch_base {a : TcpSocket.Action} (hinit : a ≠ .initRead)
    (hdone : a ≠ .connectDone true) :
    s.watch cfg (.base a) h = s.sock.watch cfg a h
      ∧ (InPlace cfg (s, h) (.base a) ↔ TcpSocket.InPlace cfg (s.sock, h) a) := by
  cases a with
  | initRead => exact absurd rfl hinit
  | connectDone ok =>
    cases ok with
    | true => exact absurd rfl hdone
    | false => exact ⟨rfl, Iff.rfl⟩
  | _ => exact ⟨rfl, Iff.rfl⟩

theorem kept_initRead (hk : Kept cfg s.sock h 0)
    (hpos : s.sslShakehand = true → s.sock.connection = true → s.sock.readBufferPos = 0) :
    Kept cfg (s.initRead cfg).sock
      (if s.sslShakehand then s.sock.initReadBegins cfg h else h) 0 := by
  by_cases hconn : s.sock.connection = true
  · by_cases hshake : s.sslShakehand = true
    · rw [initRead, if_pos hconn, if_pos hshake, if_pos hshake]
      exact hk.initRead (hpos hshake)
    · rw [initRead, if_pos hconn, if_neg hshake, if_neg hshake]
      exact hk
  · rw [initRead, if_neg hconn, TcpSocket.initReadBegins, if_neg hconn, ite_self]
    exact hk

/-- **One step** that finds what it needs keeps the sessions apart. -/
theorem kept_step {a : Action} (hk : Kept cfg s.sock h 0)
    (hstep : (system cfg).step s a = some t) (hplace : InPlace cfg (s, h) a) :
    Kept cfg t.sock (s.watch cfg a h) 0 := by
  cases a with
  | handshakeDone ok =>
    simp only [system_step, step, Option.ite_none_right_eq_some] at hstep
    obtain ⟨-, hdone⟩ := hstep
    cases ok with
    | true =>
      simp only [handshakeDone, ↓reduceIte, Option.ite_none_right_eq_some] at hdone
      obtain rfl := Option.some.inj hdone.2
      exact hk.connected (hplace rfl) rfl rfl rfl
    | false =>
      obtain rfl := Option.some.inj hdone
      exact hk.frame rfl rfl rfl rfl
  | base a =>
    by_cases hinit : a = .initRead
    · subst hinit
      simp only [system_step, step, Option.ite_none_right_eq_some] at hstep
      obtain rfl := Option.some.inj hstep.2
      exact kept_initRead hk hplace
    by_cases hdone : a = .connectDone true
    · subst hdone
      simp only [system_step, step, Option.ite_none_right_eq_some] at hstep
      obtain rfl := Option.some.inj hstep.2
      have hk' : Kept cfg { s.sock with connects := s.sock.connects - 1 } h 0 :=
        hk.frame rfl rfl rfl rfl
      exact kept_initRead (s := { s with
        sock := { s.sock with connects := s.sock.connects - 1 } }) hk' hplace
    · rw [system_step, step_base hinit hdone] at hstep
      obtain ⟨sock, hsock, rfl⟩ := Option.map_eq_some_iff.mp hstep
      obtain ⟨hwatch, hplace'⟩ := @watch_base cfg s h a hinit hdone
      rw [hwatch]
      exact hk.step hsock (hplace'.mp hplace)

theorem intact_run {as : List Action} (hk : Kept cfg s.sock h 0)
    (hrun : (system cfg).run s as = some t)
    (halong : (watched cfg).Along (InPlace cfg) (s, h) as) :
    ∃ k, (watched cfg).run (s, h) as = some (t, k) ∧ Intact cfg t.sock k := by
  obtain ⟨k, hwatched, hlast⟩ := StepSystem.observe_invariant_of_run
    (I := fun (s : TlsSocket) h ↦ Kept cfg s.sock h 0) hk
    (fun _ _ _ _ hk' hstep hplace ↦ kept_step hk' hstep hplace) hrun halong
  exact ⟨k, hwatched, hlast.intact⟩

instance decidableInPlace (cfg : Config) :
    ∀ (w : TlsSocket × Sessions) (a : Action), Decidable (InPlace cfg w a)
  | w, .base .initRead | w, .base (.connectDone true) => inferInstanceAs (Decidable
    (w.1.sslShakehand = true → w.1.sock.connection = true → w.1.sock.readBufferPos = 0))
  | w, .handshakeDone ok => inferInstanceAs (Decidable (ok = true → w.1.sock.readBufferPos = 0))
  | w, .base (.readDone i chunk) =>
    inferInstanceAs (Decidable (TcpSocket.InPlace cfg (w.1.sock, w.2) (.readDone i chunk)))
  | _, .base (.connectDone false) | _, .base (.connect _) | _, .base (.msend _) | _, .base .post
  | _, .base (.runTask _) | _, .base (.take _ _) | _, .base (.writeDone _ _ _) | _, .base .close
  | _, .base .enableReconnect | _, .base .disableReconnect | _, .base (.timer _) => isTrue trivial

end TlsSocket

/-! ## The receive buffers, settled -/

/-- **The receive buffers of both sockets, for any `handle_package`.** Every call of `process_data`
ends, with non-empty adjacent ranges of the buffer handed over. In every run of a new socket, of
either kind and in either role, whose steps find what they need, the state reached is intact: the
buffer is not overrun, and in each session what was delivered, followed by the buffer, is what was
received. -/
theorem receive_buffers_intact (cfg : Config) (isOpen : Bool) :
    (∀ s nread, Cuts cfg s nread)
      ∧ (∀ (as : List TcpSocket.Action) (t : TcpSocket),
        (TcpSocket.system cfg).run { tcpSockOpen := isOpen } as = some t →
        (TcpSocket.watched cfg).Along (TcpSocket.InPlace cfg) ({ tcpSockOpen := isOpen }, {}) as →
        ∃ h, (TcpSocket.watched cfg).run ({ tcpSockOpen := isOpen }, {}) as = some (t, h)
          ∧ Intact cfg t h)
      ∧ ∀ (as : List TlsSocket.Action) (t : TlsSocket),
        (TlsSocket.system cfg).run (TlsSocket.new isOpen) as = some t →
        (TlsSocket.watched cfg).Along (TlsSocket.InPlace cfg) (TlsSocket.new isOpen, {}) as →
        ∃ h, (TlsSocket.watched cfg).run (TlsSocket.new isOpen, {}) as = some (t, h)
          ∧ Intact cfg t.sock h := by
  refine ⟨TcpSocket.cuts cfg, ?_, ?_⟩
  · intro as t hrun halong
    exact (TcpSocket.kept_new cfg isOpen).run hrun halong
  · intro as t hrun halong
    exact TlsSocket.intact_run (TcpSocket.kept_new cfg isOpen) hrun halong

/-- A client that receives a package and a half, loses its connection and is connected again, and a
TLS server that receives as much. -/
theorem receive_buffers_intact_reconnected :
    (∃ t h, (TcpSocket.watched ⟨Tcp.kReadBufferSize, fun _ _ ↦ 2⟩).run ({}, {})
        [.enableReconnect, .connect true, .connectDone true, .readDone 0 (some [1, 2, 3]),
          .readDone 0 none, .timer true, .connectDone true, .readDone 0 (some [4])] = some (t, h)
        ∧ delivered t.log = [[1, 2]] ∧ h.since.isSome
        ∧ Intact ⟨Tcp.kReadBufferSize, fun _ _ ↦ 2⟩ t h)
      ∧ ∃ t h, (TlsSocket.watched (config fun _ _ ↦ 2)).run (TlsSocket.new true, {})
          [.base .initRead, .handshakeDone true, .base (.readDone 0 (some [1, 2, 3]))] = some (t, h)
        ∧ delivered t.sock.log = [[1, 2]] ∧ h.since.isSome
        ∧ Intact (config fun _ _ ↦ 2) t.sock h := by
  constructor
  · obtain ⟨h, hrun, hintact⟩ :=
      (receive_buffers_intact ⟨Tcp.kReadBufferSize, fun _ _ ↦ 2⟩ false).2.1
      [.enableReconnect, .connect true, .connectDone true, .readDone 0 (some [1, 2, 3]),
        .readDone 0 none, .timer true, .connectDone true, .readDone 0 (some [4])] _ rfl (by decide)
    have hsince : ∀ w ∈ (TcpSocket.watched ⟨Tcp.kReadBufferSize, fun _ _ ↦ 2⟩).run ({}, {})
        [.enableReconnect, .connect true, .connectDone true, .readDone 0 (some [1, 2, 3]),
          .readDone 0 none, .timer true, .connectDone true, .readDone 0 (some [4])],
        w.2.since.isSome := by decide
    exact ⟨_, h, hrun, by decide, hsince _ hrun, hintact⟩
  · obtain ⟨h, hrun, hintact⟩ := (receive_buffers_intact (config fun _ _ ↦ 2) true).2.2
      [.base .initRead, .handshakeDone true, .base (.readDone 0 (some [1, 2, 3]))] _ rfl (by decide)
    have hsince : ∀ w ∈ (TlsSocket.watched (config fun _ _ ↦ 2)).run (TlsSocket.new true, {})
        [.base .initRead, .handshakeDone true, .base (.readDone 0 (some [1, 2, 3]))],
        w.2.since.isSome := by decide
    exact ⟨_, h, hrun, by decide, hsince _ hrun, hintact⟩

/-- A byte of one session in the buffer of the next: a read completes right after the handler of
`close` has run, and `handle_package` waits for more. -/
theorem stale_byte_in_next_session :
    ∃ t h, (TcpSocket.watched ⟨Tcp.kReadBufferSize, fun _ _ ↦ 0⟩).run ({}, {})
        [.enableReconnect, .connect true, .connectDone true, .close, .runTask 0,
          .readDone 0 (some [1]), .timer true, .connectDone true] = some (t, h)
      ∧ h.since = some t.log.length ∧ t.readBufferPos = 1
      ∧ ¬Intact ⟨Tcp.kReadBufferSize, fun _ _ ↦ 0⟩ t h := by
  refine ⟨_, _, rfl, by decide, by decide, fun hintact ↦ ?_⟩
  exact absurd (hintact.present _ rfl) (by rw [TcpSocket.Balanced]; decide)

end Knet.Tls
