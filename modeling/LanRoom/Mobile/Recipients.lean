import LanRoom.Mobile.Moves

/-! # Whom a text goes to

A text goes to the recipients that the user last chose for the server of the client it is handed to
(`text_recipients`), in every run in which no text is written while the client still is the one of
another server than that selected last. `attach` opens this window: it clears the recipients, then
waits for the old subscription to be cancelled, and only then replaces the client. -/

namespace LanRoom.Mobile

open ThreadPool (Act Config)

/-- The **rule** for the steps of a run: a text is handed to the client of the server that was
selected last; recipients are chosen while a server is selected; and `attach` clears the recipients
only on the way to a server for which the user has chosen nobody in particular before. -/
def Event.isMindful : Event → Bool
  | .attach _ clears chosen => !clears || chosen = []
  | .chose selected => selected ≠ none
  | .text owner last _ _ _ => owner = last
  | _ => true

/-- A text carries the recipients that were last chosen for the server. -/
def Event.Addressed : Event → Prop
  | .text _ _ recipients chosen _ => recipients = chosen
  | _ => True

/-- The **invariant**: the recipients are those chosen for the server selected last. -/
structure Aimed (s : Room) : Prop where
  chosen : s.recipients = s.chosenFor s.lastSelected
  selected : ∀ server, s.selected = some server → s.lastSelected = some server.id
  sent : ∀ e ∈ s.log, e.Addressed

namespace Aimed

/-- What the invariant says does not depend on the other fields. -/
theorem congr {s s' : Room} (h : Aimed s) (hrecipients : s'.recipients = s.recipients)
    (hchosen : s'.chosen = s.chosen) (hlast : s'.lastSelected = s.lastSelected)
    (hselected : ∀ server, s'.selected = some server → s.selected = some server)
    (hlog : ∀ e ∈ s'.log, e ∈ s.log ∨ e.Addressed) : Aimed s' where
  chosen := by
    have hfor : s'.chosenFor s'.lastSelected = s.chosenFor s.lastSelected := by
      rw [hlast]
      cases s.lastSelected with
      | none => rfl
      | some id => simp only [Room.chosenFor, hchosen]
    rw [hrecipients, hfor]
    exact h.chosen
  selected := fun server hs => hlast.trans (h.selected server (hselected server hs))
  sent := fun e he => (hlog e he).elim (h.sent e) id

/-- `attach` selects a server. If the list is not cleared, it was chosen for this very server. -/
theorem attach {s : Room} (h : Aimed s) (server : FoundServer)
    (hrule : s.clears server = true → s.chosen server.id = [])
    {s' : Room} (hrecipients : s'.recipients = if s.clears server then [] else s.recipients)
    (hchosen : s'.chosen = s.chosen) (hlast : s'.lastSelected = some server.id)
    (hselected : s'.selected = some server)
    (hlog : s'.log = .attach server (s.clears server) (s.chosen server.id) :: s.log) : Aimed s' where
  chosen := by
    rw [hrecipients, hlast]
    simp only [Room.chosenFor, hchosen]
    split
    · exact (hrule ‹_›).symm
    · -- the server is the one already selected
      rename_i hsame
      have hsame : s.selectedID = some server.id := by simpa [Room.clears] using hsame
      obtain ⟨old, hold, hid⟩ := Option.map_eq_some_iff.mp hsame
      have hchosen := h.chosen
      rw [h.selected old hold] at hchosen
      simpa [Room.chosenFor, hid] using hchosen
  selected := by
    intro v hv
    rw [hselected] at hv
    rw [hlast, Option.some.inj hv]
  sent := by
    intro e he
    rw [hlog] at he
    rcases List.mem_cons.mp he with rfl | he
    · trivial
    · exact h.sent e he

/-- **One move.** The moves that select a server or choose recipients are those that matter. -/
theorem move {s s' : Room} (h : Aimed s) (hmove : Move .none s s')
    (hrule : ∀ e ∈ s'.log, e.isMindful = true) : Aimed s' := by
  have hsame : ∀ e ∈ s.log, e ∈ s.log ∨ e.Addressed := fun e he => .inl he
  cases hmove with
  | flags hseen =>
      refine h.congr hseen.recipients hseen.chosen hseen.lastSelected ?_ ?_
      · intro server hs
        rwa [hseen.selected] at hs
      · rw [hseen.log]
        exact hsame
  | @note e hplain =>
      refine h.congr rfl rfl rfl (fun _ hs => hs) ?_
      intro e' he'
      rcases List.mem_cons.mp he' with rfl | he'
      · refine .inr ?_
        cases e' <;> trivial
      · exact .inl he'
  | newClient _ => exact h.congr rfl rfl rfl (fun _ hs => hs) hsame
  | modifyClient c _ _ _ _ => exact h.congr rfl rfl rfl (fun _ hs => hs) hsame
  | takeCookie _ => exact h.congr rfl rfl rfl (fun _ hs => hs) hsame
  | sendCookie c =>
      refine h.congr rfl rfl rfl (fun _ hs => hs) ?_
      intro e he
      rcases List.mem_append.mp he with he | he
      · refine .inr ?_
        unfold Room.cookieSent at he
        split at he
        · split at he
          · exact absurd he List.not_mem_nil
          · obtain rfl := List.mem_singleton.mp he
            trivial
        · exact absurd he List.not_mem_nil
      · exact .inl he
  | storeCookie _ =>
      refine h.congr rfl rfl rfl (fun _ hs => hs) ?_
      intro e he
      rcases List.mem_cons.mp he with rfl | he
      · exact .inr trivial
      · exact .inl he
  | newSocket _ => exact h.congr rfl rfl rfl (fun _ hs => hs) hsame
  | modifySocket ws _ => exact h.congr rfl rfl rfl (fun _ hs => hs) hsame
  | frame f _ _ => exact h.congr rfl rfl rfl (fun _ hs => hs) hsame
  | attach server =>
      have hchosen : (!s.clears server || s.chosen server.id = []) = true :=
        hrule _ List.mem_cons_self
      refine h.attach server ?_ rfl rfl rfl rfl rfl
      intro hclears
      simpa [hclears] using hchosen
  | search another =>
      refine h.congr rfl rfl rfl ?_ hsame
      intro server hs
      cases another with
      | true => cases hs
      | false => exact hs
  | choose recipients =>
      -- the rule says that a server is selected, and so it was selected last
      have hnone : s.selectedID ≠ none := of_decide_eq_true (hrule _ List.mem_cons_self)
      obtain ⟨server, hserver⟩ : ∃ server, s.selected = some server := by
        cases hs : s.selected with
        | none => exact absurd (by simp [Room.selectedID, hs]) hnone
        | some server => exact ⟨server, rfl⟩
      have hlast := h.selected server hserver
      refine ⟨?_, h.selected, fun e he => ?_⟩
      · simp [Room.choose, Room.note, Room.chosenFor, Room.selectedID, hserver, hlast]
      · rcases List.mem_cons.mp he with rfl | he
        · trivial
        · exact h.sent e he
  | text value =>
      unfold Room.text at hrule ⊢
      split
      · exact h
      · rename_i hsends
        rw [if_neg hsends] at hrule
        refine h.congr rfl rfl rfl (fun _ hs => hs) ?_
        intro e he
        rcases List.mem_cons.mp he with rfl | he
        · refine .inr ?_
          -- the client is that of the server selected last
          have howner : s.owner = s.lastSelected := of_decide_eq_true (hrule _ List.mem_cons_self)
          show s.recipients = s.chosenFor s.owner
          rw [howner]
          exact h.chosen
        · exact .inl he
  | dispose => exact h.congr rfl rfl rfl (fun _ hs => hs) hsame

/-- A whole section. It is the induction on the moves it consists of. -/
theorem moves {s s' : Room} (hmoves : Moves .none s s') (h : Aimed s)
    (hrule : ∀ e ∈ s'.log, e.isMindful = true) : Aimed s' := by
  induction hmoves with
  | refl => exact h
  | tail _ hmove ih =>
      have hlog := (Later.of_move hmove).log
      exact (ih fun e he => hrule e (hlog.subset he)).move hmove hrule

end Aimed

/-- The invariant holds along every run that keeps the rule. -/
theorem localInvariant_aimed : app.LocalInvariant Arrivals (fun s => ∀ e ∈ s.log, e.isMindful = true) Aimed
    (fun _ _ => True) where
  spawn := fun _ => trivial
  own := by
    intro t k s th s' th' fs hstep hrule h _
    have hmoves := Thread.moves (th.abides_none s) (app_step.mp hstep).1
    exact ⟨Aimed.moves hmoves h hrule, trivial, fun _ _ => trivial⟩
  other := fun _ _ _ _ _ _ => trivial
  env := fun h => ⟨h, fun _ _ => trivial⟩

/-- **A text goes to the recipients last chosen for its server**, in every run whose steps keep the
rule. The rule excludes a text that goes to the client of another server than the one selected last,
and a selection that clears recipients the user had chosen. -/
theorem text_recipients {storage : DartString → Option DartString} {c : Config Room Thread}
    (hrun : app.Run Arrivals (boot storage) c) (hrule : ∀ e ∈ c.shared.log, e.isMindful = true) :
    ∀ e ∈ c.shared.log, e.Addressed := by
  have hboot : Aimed (boot storage).shared := by
    constructor
    · rfl
    · intro server h
      cases h
    · intro e he
      exact absurd he List.not_mem_nil
  exact (localInvariant_aimed.run (lasting fun e => e.isMindful = true) hrun hrule hboot
    fun _ _ => trivial).1.sent

/-! ## A text on the way to another server -/

namespace Sample

/-- The user is in the room `A` and has chosen the device `p`. -/
def whispering : List (Act Thread Outcome Unit) :=
  started ++ visit 1 'A' (publicInfo 'A') ++ goOn 1 ([.done] ++ opened ++ [.done, .done]) ++
    call 2 (.choose [['p']]) []

/-- Then the user goes to the room `B`, whose address is that of its server, and writes a text before
the old subscription is cancelled. -/
def leaving : List (Act Thread Outcome Unit) :=
  whispering ++ call 3 (.manual (some (address 'B'))) (answered (publicInfo 'B') ++ [.done]) ++
    call 4 (.text ['h', 'i']) []

/-- Instead, the user writes a text in the room `A`. -/
def staying : List (Act Thread Outcome Unit) := whispering ++ call 3 (.text ['h', 'i']) []

end Sample

/-- The text goes to everyone in the room `A`, by a client whose socket is open. -/
theorem text_to_everyone : ∃ c, app.Run Arrivals (boot fun _ => none) c ∧
    .text (some ['A']) (some ['B']) [] [['p']] true ∈ c.shared.log ∧
      ¬∀ e ∈ c.shared.log, e.Addressed := by
  have hrun : ((app.execAll (boot fun _ => none) Sample.leaving).map
      fun c => c.shared.log.head?) = some (some (.text (some ['A']) (some ['B']) [] [['p']] true)) := by
    decide +kernel
  obtain ⟨c, hc, hlog⟩ := Option.map_eq_some_iff.mp hrun
  have hmem := List.mem_of_mem_head? hlog
  refine ⟨c, .of_execAll (Sample.arrivals rfl) hc, hmem, fun h => ?_⟩
  have hsame : ([] : List DartString) = [['p']] := h _ hmem
  cases hsame

/-- A run in which a text is sent to the one device that was chosen, on the server it was chosen
for. -/
theorem text_recipients_staying : ∃ c, app.Run Arrivals (boot fun _ => none) c ∧
    .text (some ['A']) (some ['A']) [['p']] [['p']] true ∈ c.shared.log ∧
      ∀ e ∈ c.shared.log, e.Addressed := by
  have hrun : ((app.execAll (boot fun _ => none) Sample.staying).map fun c =>
      (c.shared.log.head?, c.shared.log.all Event.isMindful)) =
        some (some (.text (some ['A']) (some ['A']) [['p']] [['p']] true), true) := by
    decide +kernel
  obtain ⟨c, hc, hlog⟩ := Option.map_eq_some_iff.mp hrun
  obtain ⟨hhead, hrule⟩ := Prod.mk.inj hlog
  have hreached : app.Run Arrivals (boot fun _ => none) c :=
    .of_execAll (Sample.arrivals rfl) hc
  exact ⟨c, hreached, List.mem_of_mem_head? hhead,
    text_recipients hreached (List.all_eq_true.mp hrule)⟩

end LanRoom.Mobile
