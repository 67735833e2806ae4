import LanRoom.Chat.Model
import LanRoom.Data.KeepFirst

/-! # The list of online devices

`devices` of `internal/hub/hub.go` goes through a map, whose order is not specified, and keeps the
record of the first connection of a device. The list has every device that is online once. Which
record it has of a device depends on the order when the connections of this device have given
different names or come from different addresses (`devices_differ`), and only then
(`devices_lists`). -/

namespace LanRoom.Chat

open KeepFirst (keepFirst)

variable {h : Hub} {order order' : List Conn} {d : Device}

/-- The records of the connections, in the order in which the map yields them. -/
def Hub.records (h : Hub) (order : List Conn) : List Device :=
  order.filterMap fun c => (h.conns c).map Client.device

/-- The records come in the order of the clients. Two orders of the same clients give the same
records, in another order. -/
theorem Hub.records_perm (hperm : order.Perm order') : (h.records order).Perm (h.records order') :=
  hperm.filterMap _

/-- A record is that of a registered connection. The list is read off the registered clients, and
nothing else gets into it. -/
theorem Hub.mem_records : d ∈ h.records order ↔ ∃ c ∈ order, ∃ cl, h.conns c = some cl ∧ cl.device = d := by
  rw [Hub.records, List.mem_filterMap]
  simp only [Option.map_eq_some_iff]

/-- The loop keeps the first record of every ID. Iterating over a map in any order is iterating over
some list of its keys, to which the general loop applies. -/
theorem Hub.devices_eq (h : Hub) (order : List Conn) :
    h.devices order = keepFirst Device.id (h.records order) := by
  rw [Hub.devices, keepFirst, Hub.records, List.foldl_filterMap]
  apply List.foldl_ext
  intro list c _
  cases h.conns c with
  | none => rfl
  | some cl => rfl

/-- One connection for each device: the list has the records in the order of the map, which may be any
order. -/
theorem Hub.devices_of_nodup (hids : ((h.records order).map Device.id).Nodup) :
    h.devices order = h.records order := by
  rw [Hub.devices_eq, KeepFirst.keepFirst_of_nodup hids]

/-- A record is the first of its ID when its connection comes first. -/
theorem Hub.mem_devices_of_mem_records (hd : d ∈ h.records h.clients) :
    ∃ order, order.Perm h.clients ∧ d ∈ h.devices order := by
  obtain ⟨c, hc, cl, hcl, rfl⟩ := Hub.mem_records.mp hd
  refine ⟨c :: h.clients.erase c, (List.perm_cons_erase hc).symm, ?_⟩
  have hfirst : h.records (c :: h.clients.erase c) =
      cl.device :: h.records (h.clients.erase c) := by
    rw [Hub.records, List.filterMap_cons_some (by rw [hcl]; rfl)]
    rfl
  rw [Hub.devices_eq, hfirst]
  exact KeepFirst.mem_keepFirst_cons cl.device _

/-- **The list has every online device once**, with the record of one of its connections. Which
devices these are does not depend on the order. The records do not depend on it exactly when all
connections of a device have the same. -/
theorem devices_lists (h : Hub) :
    (∀ order, order.Perm h.clients → ((h.devices order).map Device.id).Nodup ∧
      (∀ id, id ∈ (h.devices order).map Device.id ↔ ∃ d ∈ h.records h.clients, d.id = id) ∧
      ∀ d ∈ h.devices order, d ∈ h.records h.clients) ∧
    (∀ order order', order.Perm h.clients → order'.Perm h.clients →
      ((h.devices order).map Device.id).Perm ((h.devices order').map Device.id)) ∧
    ((∀ order order', order.Perm h.clients → order'.Perm h.clients →
        (h.devices order).Perm (h.devices order')) ↔
      ∀ d ∈ h.records h.clients, ∀ d' ∈ h.records h.clients, d.id = d'.id → d = d') := by
  refine ⟨?_, ?_, ?_, ?_⟩
  · intro order hperm
    rw [Hub.devices_eq]
    refine ⟨KeepFirst.nodup_keys _, ?_, ?_⟩
    · intro id
      rw [KeepFirst.mem_keys, ((Hub.records_perm hperm).map Device.id).mem_iff, List.mem_map]
    · intro d hd
      exact (Hub.records_perm hperm).mem_iff.mp (KeepFirst.mem_of_mem_keepFirst hd)
  · intro order order' hperm hperm'
    rw [Hub.devices_eq, Hub.devices_eq]
    exact KeepFirst.keys_perm (Hub.records_perm (hperm.trans hperm'.symm))
  · -- two records of one device can both come first
    intro hsame d hd d' hd' hid
    obtain ⟨order, hperm, hin⟩ := Hub.mem_devices_of_mem_records hd
    obtain ⟨order', hperm', hin'⟩ := Hub.mem_devices_of_mem_records hd'
    have hboth := (hsame order' order hperm' hperm).mem_iff.mp hin'
    rw [Hub.devices_eq] at hin hboth
    exact KeepFirst.eq_of_key_eq hin hboth hid
  · intro hinj order order' hperm hperm'
    rw [Hub.devices_eq, Hub.devices_eq]
    apply KeepFirst.keepFirst_perm
    · intro d hd d' hd'
      exact hinj d ((Hub.records_perm hperm).mem_iff.mp hd) d'
        ((Hub.records_perm hperm).mem_iff.mp hd')
    · exact Hub.records_perm (hperm.trans hperm'.symm)

/-- Two tabs of one browser, with different names. -/
def twoTabs : Hub :=
  (({ now := 0, historyTTL := 0 } : Hub).join 1 ⟨goString "id", goString "home", [], []⟩).join 2
    ⟨goString "id", goString "office", [], []⟩

/-- **The record depends on the order.** One ID with two connections that registered under different
names gives either record. -/
theorem devices_differ : ¬∀ (h : Hub) (order order' : List Conn), order.Perm h.clients →
    order'.Perm h.clients → (h.devices order).Perm (h.devices order') := by
  intro hall
  have hdiffer : ¬(twoTabs.devices [1, 2]).Perm (twoTabs.devices [2, 1]) := by
    decide +kernel
  exact hdiffer (hall twoTabs [1, 2] [2, 1] (by decide) (by decide))

end LanRoom.Chat
