import LanRoom.Concurrency.EventLoop
import LanRoom.Web.Devices

/-! # When the list of devices is drawn again

`renderDevices` leaves the list on screen alone when the signature of the users has not changed. The
signature has the users in the order of the frame, so that a frame with the same users in another
order is drawn again (`same_rendering_iff`). It has neither the own ID nor the recipient of private
messages. `setSendTarget` changes the entries on screen itself. A `welcome` frame changes nothing on
screen: when it comes after the first presence frame, the own entry is not marked until the users
change (`skips_soundly_iff`). -/

namespace LanRoom.Web

open EventLoop (run Throughout Along)
open DeviceList (toggle)

namespace DeviceList

variable {s : DeviceList} {users : List User}

/-! ## Two frames -/

/-- The label that a list of users gives a device. -/
def labelOf (users : List User) (id : Text) : Option Text :=
  ((users.map User.id).zip (labels users)).lookup id

/-- After the first frame the second one draws nothing, and no device has another label. -/
structure SameRendering (s : DeviceList) (users users' : List User) : Prop where
  undrawn : ((s.renderDevices users).renderDevices users').devicesSignature =
    (s.renderDevices users).devicesSignature
  sameLabels : ∀ id, labelOf users' id = labelOf users id

/-- Whether or not the list is drawn, the signature is that of the users. -/
theorem devicesSignature_renderDevices (s : DeviceList) (users : List User) :
    (s.renderDevices users).devicesSignature = signature users := by
  rw [renderDevices]
  by_cases h : signature users = s.devicesSignature
  · rw [if_pos h]
    exact h.symm
  · rw [if_neg h]

/-- Nothing is drawn when the signature has not changed. This is the branch that returns early. -/
theorem items_of_signature_eq (h : signature users = s.devicesSignature) :
    (s.renderDevices users).items = s.items := by
  rw [renderDevices, if_pos h]

/-- **Nothing is drawn for the second frame and no label changes** exactly when it lists the same
users in the same order. The signature is compared as a text, and two lists have the same one
exactly when they are equal, so a list in another order is drawn anew. -/
theorem same_rendering_iff (s : DeviceList) (users users' : List User) :
    SameRendering s users users' ↔ users = users' := by
  constructor
  · intro h
    have hsame := h.undrawn
    rw [devicesSignature_renderDevices, devicesSignature_renderDevices] at hsame
    exact (signature_injective hsame).symm
  · rintro rfl
    constructor
    · rw [devicesSignature_renderDevices, devicesSignature_renderDevices]
    · intro id
      rfl

end DeviceList

/-! ## The page over time -/

/-- What can happen to the list. -/
inductive PageEvent
  | presence (users : List User)
  /-- A `welcome` frame, with the ID of its device. -/
  | welcome (device : Option Text)
  | sendTarget (target : Option Target)
  | enterChat
  | leaveChat

namespace DeviceList

variable {s s' : DeviceList} {e : PageEvent} {users : List User}

/-- One event. Every event can happen at any time; `enterChat` leaves the list alone. -/
def step (s : DeviceList) : PageEvent → Option DeviceList
  | .presence users => some (s.renderDevices users)
  | .welcome device => some (s.welcome device)
  | .sendTarget target => some (s.setSendTarget target)
  | .enterChat => some s
  | .leaveChat => some s.leaveChat

/-- Whatever frame comes next: if nothing is drawn for it, a full redraw would draw what is on
screen. -/
def SkipsSoundly (s : DeviceList) : Prop :=
  ∀ users, signature users = s.devicesSignature →
    (s.renderDevices users).items = draw users s.deviceId s.sendTarget

/-- A `welcome` frame does not change which of the entries on screen is the own one. -/
def KeepsOwn (s : DeviceList) : PageEvent → Prop
  | .welcome device => s.devicesSignature = [] ∨
      ∀ u ∈ s.onlineUsers, s.deviceId = some u.id ↔ (s.welcome device).deviceId = some u.id
  | _ => True

instance decidableKeepsOwn (s : DeviceList) : (e : PageEvent) → Decidable (KeepsOwn s e)
  | .presence _ => isTrue trivial
  | .welcome _ => inferInstanceAs (Decidable (_ ∨ _))
  | .sendTarget _ => isTrue trivial
  | .enterChat => isTrue trivial
  | .leaveChat => isTrue trivial

/-- The list on screen is the one that a full redraw would draw, unless the next frame is drawn
anyway. -/
def Current (s : DeviceList) : Prop :=
  s.devicesSignature = [] ∨ s.devicesSignature = signature s.onlineUsers ∧
    s.items = draw s.onlineUsers s.deviceId s.sendTarget

/-! ## What the handlers do to the entries -/

/-- An entry that is selected, or not, is the entry drawn for the new recipient. -/
theorem toggle_drawItem (deviceId : Option Text) (target target' : Option Target) (label : Text)
    (u : User) : toggle target' (drawItem deviceId target label u) =
      drawItem deviceId target' label u := by
  by_cases h : deviceId = some u.id
  · simp [toggle, drawItem, h]
  · simp [toggle, drawItem, h, eq_comm]

/-- **`setSendTarget` draws nothing and shows what a redraw would.** It only changes the class of
the entries that are there. -/
theorem map_toggle_draw (users : List User) (deviceId : Option Text) (target target' : Option Target) :
    (draw users deviceId target).map (toggle target') = draw users deviceId target' := by
  rw [draw, draw, List.map_zipWith]
  congr 1
  funext label u
  exact toggle_drawItem deviceId target target' label u

/-- A redraw, as one entry for each label with its user. The loop runs over users and labels
together. -/
theorem draw_eq (users : List User) (deviceId : Option Text) (target : Option Target) :
    draw users deviceId target =
      ((labels users).zip users).map fun x => drawItem deviceId target x.1 x.2 :=
  (List.map_uncurry_zip_eq_zipWith (f := drawItem deviceId target)).symm

/-- Which entries a redraw marks as the own one. It is the one with the identifier that the welcome
frame has told. -/
theorem map_isSelf_draw (users : List User) (deviceId : Option Text) (target : Option Target) :
    (draw users deviceId target).map Item.isSelf =
      users.map fun u => decide (deviceId = some u.id) := by
  have husers : ((labels users).zip users).map Prod.snd = users :=
    List.map_snd_zip (length_labels users).ge
  rw [draw_eq, List.map_map]
  calc ((labels users).zip users).map (Item.isSelf ∘ fun x => drawItem deviceId target x.1 x.2)
      = (((labels users).zip users).map Prod.snd).map fun u => decide (deviceId = some u.id) := by
        rw [List.map_map]
        rfl
    _ = users.map fun u => decide (deviceId = some u.id) := by rw [husers]

/-- A redraw depends on the own ID only as far as it tells the own entry. -/
theorem draw_congr {deviceId deviceId' : Option Text} (target : Option Target)
    (h : ∀ u ∈ users, deviceId = some u.id ↔ deviceId' = some u.id) :
    draw users deviceId target = draw users deviceId' target := by
  rw [draw_eq, draw_eq]
  apply List.map_congr_left
  rintro ⟨label, u⟩ hmem
  rw [drawItem, drawItem, decide_eq_decide.mpr (h u (List.of_mem_zip hmem).2)]

/-! ## Runs -/

/-- A frame leaves a list on screen that is current. Either it is drawn anew or it was current
before. -/
theorem current_renderDevices (hs : s.Current) (users : List User) :
    (s.renderDevices users).Current := by
  right
  refine ⟨?_, ?_⟩
  · rw [devicesSignature_renderDevices, renderDevices]
    split
    · rfl
    · rfl
  · rw [renderDevices]
    by_cases hsame : signature users = s.devicesSignature
    · rw [if_pos hsame]
      rcases hs with hnone | ⟨hsignature, hitems⟩
      · rw [hnone] at hsame
        exact absurd hsame (signature_ne_nil users)
      · -- the frame has the users that are on screen
        have husers : users = s.onlineUsers := signature_injective (hsame.trans hsignature)
        rw [husers]
        exact hitems
    · rw [if_neg hsame]

/-- **What every event preserves**, if it does not make another entry the own one. The list on
screen then stays the one that a redraw would give. -/
theorem current_step (s : DeviceList) (e : PageEvent) (s' : DeviceList) (hs : s.Current)
    (hok : s.KeepsOwn e) (hstep : s.step e = some s') : s'.Current := by
  cases e with
  | presence users =>
    cases hstep
    exact current_renderDevices hs users
  | welcome device =>
    cases hstep
    rcases hs with hnone | ⟨hsignature, hitems⟩
    · exact Or.inl hnone
    · right
      refine ⟨hsignature, hitems.trans ?_⟩
      rcases hok with hnone | hown
      · rw [hsignature] at hnone
        exact absurd hnone (signature_ne_nil _)
      · exact draw_congr s.sendTarget hown
  | sendTarget target =>
    cases hstep
    rcases hs with hnone | ⟨hsignature, hitems⟩
    · exact Or.inl hnone
    · right
      refine ⟨hsignature, ?_⟩
      rw [setSendTarget, hitems]
      exact map_toggle_draw s.onlineUsers s.deviceId s.sendTarget target
  | enterChat =>
    cases hstep
    exact hs
  | leaveChat =>
    cases hstep
    exact Or.inl rfl

/-- A current list need not be drawn again. What would be drawn is what is there. -/
theorem skipsSoundly_of_current (s : DeviceList) (hs : s.Current) : s.SkipsSoundly := by
  intro users hsame
  rcases hs with hnone | ⟨hsignature, hitems⟩
  · rw [hnone] at hsame
    exact absurd hsame (signature_ne_nil users)
  · have husers : users = s.onlineUsers := signature_injective (hsame.trans hsignature)
    rw [items_of_signature_eq hsame, husers]
    exact hitems

/-- A `welcome` frame that makes another entry the own one leaves a wrong list on screen. -/
theorem not_skipsSoundly (s : DeviceList) (e : PageEvent) (s' : DeviceList) (hs : s.Current)
    (hbad : ¬s.KeepsOwn e) (hstep : s.step e = some s') : ¬s'.SkipsSoundly := by
  intro hsound
  apply hbad
  cases e with
  | presence users => trivial
  | sendTarget target => trivial
  | enterChat => trivial
  | leaveChat => trivial
  | welcome device =>
    cases hstep
    rcases hs with hnone | ⟨hsignature, hitems⟩
    · exact Or.inl hnone
    · -- a frame with the users that are on screen is not drawn
      right
      have hskip := hsound s.onlineUsers hsignature.symm
      have hscreen : s.items = draw s.onlineUsers (s.welcome device).deviceId s.sendTarget :=
        (items_of_signature_eq (s := s.welcome device) hsignature.symm).symm.trans hskip
      have hmarks := congrArg (List.map Item.isSelf) (hitems.symm.trans hscreen)
      rw [map_isSelf_draw, map_isSelf_draw] at hmarks
      intro u hu
      exact decide_eq_decide.mp (List.map_inj_left.mp hmarks u hu)

/-- Every event can happen. The theorem about runs is therefore about all sequences of events. -/
theorem exists_run (s : DeviceList) (es : List PageEvent) : ∃ s', run step s es = some s' := by
  induction es generalizing s with
  | nil => exact ⟨s, rfl⟩
  | cons e es ih =>
    rw [EventLoop.run_cons]
    cases e with
    | presence users => exact ih _
    | welcome device => exact ih _
    | sendTarget target => exact ih _
    | enterChat => exact ih _
    | leaveChat => exact ih _

/-- **Skipping a redraw is sound** throughout exactly the runs in which no `welcome` frame makes
another entry on screen the own one. -/
theorem skips_soundly_iff (es : List PageEvent) :
    Throughout step SkipsSoundly {} es ↔ Along step KeepsOwn {} es := by
  obtain ⟨s', hrun⟩ := exists_run {} es
  exact EventLoop.throughout_iff_along current_step skipsSoundly_of_current not_skipsSoundly
    (Or.inl rfl) hrun

/-- A device that is online, under the name `A`. -/
def userA (id : Text) : User := ⟨id, ['A'], [], []⟩

/-- The first presence frame comes before the `welcome` frame. -/
def lateWelcome : List PageEvent := [.presence [userA ['1']], .welcome (some ['1'])]

/-- **A wrong list stays on screen**: the own entry is not marked. The welcome frame that comes
after the list tells the page who it is, and the next list has the same signature. -/
theorem stale_after_lateWelcome : ¬∀ es, Throughout step SkipsSoundly {} es := by
  intro h
  have hend := ((h lateWelcome).2 _ rfl).2 _ rfl
  have hsound := hend [userA ['1']] (by decide +kernel)
  exact absurd hsound (by decide +kernel)

/-- **The order shows**: two devices under one name exchange their labels, in a list that is drawn
again. Nothing but the order is different, and the signature depends on it. -/
theorem order_shows : ¬∀ (s : DeviceList) (users users' : List User), users.Perm users' →
    (users.map User.id).Nodup → SameRendering s users users' := by
  intro h
  have hsame := h {} [userA ['1'], userA ['2']] [userA ['2'], userA ['1']] (by decide +kernel)
    (by decide)
  exact absurd (hsame.sameLabels ['1']) (by decide +kernel)

end DeviceList

end LanRoom.Web
