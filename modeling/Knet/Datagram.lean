import Knet.Kcp.Receive
import Knet.Udp.Receive

/-!
# Datagram receivers

The four receive loops side by side. Each of them asks for the next datagram only when the one it
got was not empty, and otherwise returns as after an error of the socket. An empty datagram is a
valid datagram, and anybody can send one.
-/

namespace Knet

open ReceiveLoop

section

variable {ε κ : Type*}

/-- The datagrams with their sources, as a socket that does not look at the source gets them. -/
def fromAnywhere (ms : List (ε × List UInt8)) : List (Unit × List UInt8) :=
  ms.map fun m ↦ ((), m.2)

theorem fromAnywhere_ne_nil {ms : List (ε × List UInt8)} :
    (∀ m ∈ fromAnywhere ms, m.2 ≠ []) ↔ ∀ m ∈ ms, m.2 ≠ [] := by
  rw [fromAnywhere, List.forall_mem_map]

variable [DecidableEq ε]

/-- **A datagram receiver serves exactly the sequences without empty datagrams.** This holds for
listeners and for connected sockets, of UDP and of KCP, in whatever state they are waiting, and
whatever the user does with the datagrams. -/
theorem served_iff_ne_nil (hooks : Udp.Hooks) (lib : Kcp.Ikcp κ) (ms : List (ε × List UInt8)) :
    (∀ l : Udp.UdpListener ε, (Udp.UdpListener.loop hooks).Served (l, true) ms
        ↔ ∀ m ∈ ms, m.2 ≠ [])
      ∧ (∀ l : Kcp.KcpListener κ ε, (Kcp.KcpListener.loop lib).Served (l, true) ms
        ↔ ∀ m ∈ ms, m.2 ≠ [])
      ∧ (∀ c : Udp.UdpConnection, (Udp.UdpConnection.loop hooks).Served (c, true) (fromAnywhere ms)
        ↔ ∀ m ∈ ms, m.2 ≠ [])
      ∧ ∀ c : Kcp.KcpClient κ, (Kcp.KcpClient.loop lib).Served (c, true) (fromAnywhere ms)
        ↔ ∀ m ∈ ms, m.2 ≠ [] := by
  refine ⟨fun l ↦ ?_, fun l ↦ ?_, fun c ↦ ?_, fun c ↦ ?_⟩
  · exact served_iff (Udp.UdpListener.sorts_loop hooks) rfl ms
  · exact served_iff (Kcp.KcpListener.sorts_loop lib) rfl ms
  · rw [served_iff (Udp.UdpConnection.sorts_loop hooks) rfl, fromAnywhere_ne_nil]
  · rw [served_iff (Kcp.KcpClient.sorts_loop lib) rfl, fromAnywhere_ne_nil]

end

/-- After an empty datagram a listener waits for nothing, and the next client is never seen. -/
theorem empty_datagram_disarms :
    let l : Udp.UdpListener ℕ := ⟨fun _ ↦ none⟩
    let ms : List (ℕ × List UInt8) := [(0, [7]), (0, []), (1, [8])]
    let after := (Udp.UdpListener.loop {}).run (l, true) ms
    after.2 = false ∧ after.1.handed 0 = [[7]] ∧ after.1.handed 1 = []
      ∧ (Udp.UdpListener.loop {}).due (l, true) [(0, [7])] 0 = [[7]]
      ∧ ¬(Udp.UdpListener.loop {}).Served (l, true) ms := by
  refine ⟨rfl, rfl, rfl, rfl, fun h ↦ ?_⟩
  exact absurd (h _ (List.prefix_refl _)).1 (by decide)

end Knet
