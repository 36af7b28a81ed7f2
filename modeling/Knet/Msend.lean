import Knet.Tls.Socket
import Knet.Udp.Send

/-!
# `msend` of the three transports

What `msend` does with its arguments, and what it answers, for a TCP socket, the copy of it under
TLS, and a UDP connection. TCP and TLS lose arguments behind an append that leaves the size of
`send_buffer` at `0` in 32 bits, in particular behind an empty argument on an empty buffer; and the
answers of TCP and UDP count bytes more than once.
-/

namespace Knet

open Tcp (Arg payload Uncut TcpSocket)
open Tls (TlsSocket)

variable {args : List Arg}

/-- **When `msend` keeps all its arguments.** On an open TCP or TLS socket, whatever `send_buffer`
holds, all the bytes of the arguments are appended exactly when no append brings the size of the
buffer to a multiple of `2 ^ 32` with bytes still to come. -/
theorem keepsAll_iff_uncut (hnull : ∀ a ∈ args, a ≠ .cstr none) (cfg : Tcp.Config) :
    (∀ s : TcpSocket, s.isOpen = true →
        ((s.msend args).sendBuffer = s.sendBuffer ++ payload args
          ↔ Uncut s.sendBuffer.length args))
      ∧ ∀ s t : TlsSocket, s.sock.isOpen = true →
        (TlsSocket.system cfg).step s (.base (.msend args)) = some t →
        (t.sock.sendBuffer = s.sock.sendBuffer ++ payload args
          ↔ Uncut s.sock.sendBuffer.length args) := by
  refine ⟨fun s hopen ↦ TcpSocket.keepsAll_iff hopen hnull, fun s t hopen hstep ↦ ?_⟩
  rw [TlsSocket.system_step, TlsSocket.step_base (by simp) (by simp)] at hstep
  obtain rfl := Option.some.inj hstep
  exact TcpSocket.keepsAll_iff hopen hnull

/-- A socket that is open and has nothing to send. -/
def openSocket : TcpSocket := { socketStatus := .opened, tcpSockOpen := true }

/-- A header, an empty body and a trailer are all sent. -/
theorem keepsAll_around_empty :
    (openSocket.msend [.value [1, 2], .str [], .view [3]]).sendBuffer
      = openSocket.sendBuffer ++ payload [.value [1, 2], .str [], .view [3]] :=
  ((keepsAll_iff_uncut (by decide) Tcp.wholeReads).1 openSocket rfl).mpr (by decide)

/-- An empty argument on an empty buffer: nothing of what follows is sent. -/
theorem lost_behind_empty :
    openSocket.isOpen = true
      ∧ (openSocket.msend [.str [], .view [3]]).sendBuffer = []
      ∧ openSocket.sendBuffer ++ payload [.str [], .view [3]] = [3]
      ∧ ∃ t, (TlsSocket.system Tcp.wholeReads).step { sock := openSocket }
          (.base (.msend [.str [], .view [3]])) = some t
        ∧ t.sock.sendBuffer = [] :=
  ⟨rfl, rfl, rfl, _, rfl, rfl⟩

/-- **When `msend` reports what it accepted.** On an open TCP socket, whatever `send_buffer` holds:
exactly when the sizes at which the arguments find the buffer add up to `0` in 32 bits and their
bytes can be counted in 31. Over UDP: exactly when the arguments are all empty, and no datagram is
sent. -/
theorem reports_iff_countsOnce (args : List Arg) :
    (∀ s : TcpSocket, s.isOpen = true →
        (s.Reports args ↔ TcpSocket.CountsOnce s.sendBuffer.length args))
      ∧ ∀ c : Udp.Outlet, c.udpSocket = true →
        (c.Reports args ↔ (∀ a ∈ args, a ≠ .cstr none) ∧ payload args = []) :=
  ⟨fun _ hopen ↦ TcpSocket.reports_iff hopen args, fun _ hsock ↦ Udp.Outlet.reports_iff hsock args⟩

/-- One argument on an empty buffer, and an empty datagram. -/
theorem reports_single :
    openSocket.Reports [.view [1, 2, 3]] ∧ (⟨true, []⟩ : Udp.Outlet).Reports [.view []] :=
  ⟨((reports_iff_countsOnce _).1 openSocket rfl).mpr (by decide),
    ((reports_iff_countsOnce _).2 ⟨true, []⟩ rfl).mpr (by decide)⟩

/-- Two arguments of one byte each are counted as three, and a datagram of one byte as two. -/
theorem counted_twice :
    openSocket.isOpen = true
      ∧ (openSocket.msend [.value [1], .value [2]]).sendBuffer = [1, 2]
      ∧ (openSocket.msend [.value [1], .value [2]]).results = [3]
      ∧ (⟨true, []⟩ : Udp.Outlet).msend [.value [1]] = some (⟨true, [[1]]⟩, 2)
      ∧ ¬openSocket.Reports [.value [1], .value [2]]
      ∧ ¬(⟨true, []⟩ : Udp.Outlet).Reports [.value [1]] := by
  refine ⟨rfl, rfl, by decide, by decide, ?_, ?_⟩
  · rw [TcpSocket.reports_iff rfl]
    decide
  · rw [Udp.Outlet.reports_iff rfl]
    decide

end Knet
