import LanRoom.Data.FixedWindow
import LanRoom.Discovery.Exchange
import LanRoom.Go.Net

/-! # The loop that answers datagrams

The goroutine of `Start` in `internal/discovery/discovery.go`, with `LocalAddress`. It counts the
datagrams of a window, which restarts at the first datagram that comes more than a second after its
start, and looks at no more than 40 of them.

Times are readings of the clock in nanoseconds. The code reads it when it tests the age of the window,
and once more when it restarts the window.

`passed_le` bounds the datagrams of any second by twice the cap, since two windows can meet in it
(`exceeds_cap`). -/

namespace LanRoom.Discovery

open LanRoom.Go (IPNet to4 runes)

/-! ## Which datagrams are answered -/

/-- `unicode.ToLower`, as far as the result is ASCII. -/
def lowerChar (c : Char) : Char :=
  if 'A' ≤ c ∧ c ≤ 'Z' then Char.ofNat (c.toNat + 32)
  else if c.toNat = 0x0130 then 'i'
  else if c.toNat = 0x212A then 'k'
  else c

/-- `virtualPrefixes`. -/
def virtualPrefixes : List String :=
  ["docker", "br-", "veth", "tun", "tap", "wg", "utun", "virbr", "vmnet", "vboxnet", "lo", "cni",
    "flannel", "meta"]

/-- `IsVirtualInterface`. -/
def isVirtualInterface (name : GoString) : Bool :=
  virtualPrefixes.any fun p => p.toList.isPrefixOf ((runes name).map lowerChar)

/-- `net.Interface`. -/
structure Interface where
  name : GoString
  /-- `net.FlagUp`. -/
  up : Bool
  /-- `net.FlagLoopback`. -/
  loopback : Bool
  /-- `net.FlagBroadcast`. -/
  broadcast : Bool

/-- `IP.IsPrivate`, of an IPv4 address. -/
def isPrivate4 : Bytes → Bool
  | a :: b :: _ => a == 10 || (a == 172 && b &&& 0xF0 == 16) || (a == 192 && b == 168)
  | _ => false

/-- `LocalAddress`. Addresses that are no `IPNet` are skipped; they are left out. -/
def localAddress (iface : Interface) (peer : Bytes) (addrs : List IPNet) : Option Bytes :=
  if !iface.up || iface.loopback || !iface.broadcast || isVirtualInterface iface.name then none
  else addrs.findSome? fun n =>
    (to4 n.ip).bind fun ip => if isPrivate4 ip && n.contains peer then some ip else none

/-- What `ReadFrom` returns, and what the system answers about the interface. -/
structure Datagram where
  data : Bytes
  /-- `cm.IfIndex`, when there is a control message. -/
  ifIndex : Option ℕ
  /-- The IP of a `net.UDPAddr`. -/
  peer : Option Bytes
  /-- `net.InterfaceByIndex`. -/
  iface : Option Interface
  /-- `iface.Addrs`. -/
  addrs : Option (List IPNet)

/-- The size of the buffer; what a datagram has beyond is lost. -/
def bufferSize : ℕ := 1025

/-- The body of the loop after the count test: the answer that is sent. -/
def inspect (serviceID : GoString) (httpPort : ℤ) (d : Datagram) : Option Bytes :=
  match d.ifIndex, d.peer, d.iface, d.addrs with
  | some index, some peer, some iface, some addrs =>
      if index = 0 then none
      else if localAddress iface peer addrs = none then none
      else reply (d.data.take bufferSize) serviceID httpPort
  | _, _, _, _ => none

/-! ## The loop -/

/-- `time.Second`. -/
def second : ℤ := 1000000000

/-- The cap. -/
def cap : ℕ := 40

/-- The variables of the loop. -/
structure Window where
  start : ℤ
  count : ℕ

/-- A datagram with the readings of the clock in its round. -/
structure Arrival where
  datagram : Datagram
  /-- In `time.Since(window)`. -/
  checked : ℤ
  /-- In `window = time.Now()`, if it is reached. -/
  restarted : ℤ
  /-- When the count test is passed, if it is. -/
  passed : ℤ

/-- The count after a datagram. -/
def Window.next (w : Window) (a : Arrival) : Window :=
  let w := if second < a.checked - w.start then ⟨a.restarted, 0⟩ else w
  { w with count := w.count + 1 }

/-- The datagrams that pass the count test. -/
def passing (w : Window) : List Arrival → List Arrival
  | [] => []
  | a :: as =>
      if cap < (w.next a).count then passing (w.next a) as else a :: passing (w.next a) as

/-- The datagrams that are answered. -/
def answered (serviceID : GoString) (httpPort : ℤ) (start : ℤ) (as : List Arrival) : List Arrival :=
  (passing ⟨start, 0⟩ as).filter fun a => (inspect serviceID httpPort a.datagram).isSome

/-- The readings do not decrease, from a time on. -/
def InOrder : ℤ → List Arrival → Prop
  | _, [] => True
  | t, a :: as =>
      t ≤ a.checked ∧ a.checked ≤ a.restarted ∧ a.restarted ≤ a.passed ∧ InOrder a.passed as

instance decidableInOrder : (t : ℤ) → (as : List Arrival) → Decidable (InOrder t as)
  | _, [] => isTrue trivial
  | _, a :: as =>
      haveI := decidableInOrder a.passed as
      inferInstanceAs (Decidable (_ ∧ _ ∧ _ ∧ _))

/-- The datagrams that are inspected within one second from `x` on. -/
def passedWithin (x : ℤ) (start : ℤ) (as : List Arrival) : ℕ :=
  FixedWindow.between x (x + second) ((passing ⟨start, 0⟩ as).map (·.passed))

/-! ## The cap -/

open FixedWindow (Metered)

/-- A datagram is counted. The three readings of the clock within one pass of the loop may
differ. -/
theorem metered_next {w : Window} {t : ℤ} {log : List ℤ} {a : Arrival}
    (h : Metered second cap w.count w.start t log) (hchecked : t ≤ a.checked)
    (hrestarted : a.checked ≤ a.restarted) (hpassed : a.restarted ≤ a.passed) :
    Metered second cap (w.next a).count (w.next a).start a.passed
      (if cap < (w.next a).count then log else log ++ [a.passed]) := by
  -- the window, when the datagram is counted
  obtain ⟨count, start, hcount, hstart, hmetered⟩ : ∃ count start,
      (w.next a).count = count + 1 ∧ (w.next a).start = start ∧
        Metered second cap count start a.passed log := by
    by_cases hold : second < a.checked - w.start
    · refine ⟨0, a.restarted, ?_, ?_, ?_⟩
      · rw [Window.next, if_pos hold]
      · rw [Window.next, if_pos hold]
      · exact ((h.tick (hchecked.trans hrestarted)).restart (by omega)).tick hpassed
    · refine ⟨w.count, w.start, ?_, ?_, ?_⟩
      · rw [Window.next, if_neg hold]
      · rw [Window.next, if_neg hold]
      · exact h.tick (by omega)
  rw [hcount, hstart]
  by_cases hcap : cap < count + 1
  · rw [if_pos hcap]
    exact hmetered.skip
  · rw [if_neg hcap]
    exact hmetered.record (by omega)

/-- All datagrams are counted. The induction is on the datagrams, with the count and the start of
the window arbitrary. -/
theorem metered_passing {w : Window} {t : ℤ} {log : List ℤ} {as : List Arrival}
    (h : Metered second cap w.count w.start t log) (hord : InOrder t as) :
    ∃ (w' : Window) (t' : ℤ),
      Metered second cap w'.count w'.start t' (log ++ (passing w as).map (·.passed)) := by
  induction as generalizing w t log with
  | nil => exact ⟨w, t, by rw [passing, List.map_nil, List.append_nil]; exact h⟩
  | cons a as ih =>
    obtain ⟨hchecked, hrestarted, hpassed, hrest⟩ := hord
    have hnext := metered_next h hchecked hrestarted hpassed
    rw [passing]
    by_cases hcap : cap < (w.next a).count
    · rw [if_pos hcap] at hnext ⊢
      exact ih hnext hrest
    · rw [if_neg hcap] at hnext ⊢
      obtain ⟨w', t', hend⟩ := ih hnext hrest
      refine ⟨w', t', ?_⟩
      rw [List.map_cons, ← List.singleton_append, ← List.append_assoc]
      exact hend

/-- **No more than twice the cap within a second**, whatever arrives: the window is a fixed one that
starts again with the first datagram after its end, so in any interval of one second at most `2 *
cap` datagrams pass the count test. -/
theorem passed_le {start : ℤ} {as : List Arrival} (h : InOrder start as) (x : ℤ) :
    passedWithin x start as ≤ 2 * cap := by
  obtain ⟨w, t, hend⟩ :=
    metered_passing (w := ⟨start, 0⟩) (Metered.empty (le_refl start)) h
  exact hend.few x

/-- Datagrams that come all at once. -/
def burst (t : ℤ) (n : ℕ) : List Arrival := List.replicate n ⟨⟨[], none, none, none, none⟩, t, t, t⟩

/-- A full window at its end, and the next one. -/
def twoBursts : List Arrival := burst second cap ++ burst (second + 1) cap

/-- Two bursts, one at the end of a window and one after it. It is the run by which the bound is
reached. -/
theorem passed_le_twoBursts : passedWithin second 0 twoBursts ≤ 2 * cap :=
  passed_le (by decide +kernel) second

/-- **The cap is exceeded within a second**: all datagrams of both windows are inspected. The window
starts anew with the first datagram after its end, whatever has passed shortly before. -/
theorem exceeds_cap : ¬∀ start as, InOrder start as → ∀ x, passedWithin x start as ≤ cap := by
  intro h
  have hboth : passedWithin second 0 twoBursts = 2 * cap := by
    decide +kernel
  have hle := h 0 twoBursts (by decide +kernel) second
  rw [hboth] at hle
  exact absurd hle (by decide)

/-- No more answers are sent, either. An answer is sent for a datagram that has passed the count
test only. -/
theorem answered_le (serviceID : GoString) (httpPort : ℤ) {start : ℤ} {as : List Arrival}
    (h : InOrder start as) (x : ℤ) :
    FixedWindow.between x (x + second) ((answered serviceID httpPort start as).map (·.passed)) ≤
      2 * cap := by
  obtain ⟨w, t, hend⟩ := metered_passing (w := ⟨start, 0⟩) (Metered.empty (le_refl start)) h
  exact (List.filter_sublist.map _).countP_le.trans (hend.few x)

end LanRoom.Discovery
