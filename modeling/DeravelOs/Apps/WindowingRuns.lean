import DeravelOs.Apps.Windowing

/-!
# Runs of the windowing server

What holds of the server in all runs.

* `Setup`: what does not change, with the sizes that the arithmetic of the server has room for.
* `Inv`: the cursor is on the display, the active window is open, nothing but windows is drawn over the
  background, and a ring has the events that were typed while its window was active.
* `Later`: windows stay where they are, and nothing is typed for a closed one.
* `Typing`, `Goes`: the part of this that is about keys.  It needs no sizes.
* `kept`: each call and each event keeps the invariant, if sizes are as in `Accepted` and the mouse is as
  in `Observed`.
* `run_stands`, `run_delivers`: the server does not fall, and it neither loses nor repeats a key.
-/

namespace Deravel

namespace Windowing

open Behaviour Failure

/-! ## What holds -/

/-- A display and the axes of a mouse. -/
structure Setup where
  width : ℕ
  height : ℕ
  absXInfo : InputAbsinfo
  absYInfo : InputAbsinfo
  width_pos : 0 < width
  width_lt : width < 2 ^ 30
  height_lt : height < 2 ^ 30
  absX_lt : absXInfo.min.toNat < absXInfo.max.toNat
  absY_lt : absYInfo.min.toNat < absYInfo.max.toNat

/-- The color behind the windows. -/
def background : BitVec 32 := bgra 191 215 234 255

namespace WindowData

/-- The window is at this place of the display. -/
def Covers (window : WindowData) (x y : ℤ) : Prop :=
  (window.x ≤ x ∧ x < window.x + window.width) ∧ window.y ≤ y ∧ y < window.y + window.height

/-- A window can be drawn and clicked, and be closed. -/
structure Placed (setup : Setup) (window : WindowData) : Prop where
  width_lt : window.width < 2 ^ 31
  height_lt : window.height < 2 ^ 31
  framebuffer_width : window.framebuffer.width = window.width
  framebuffer_height : window.framebuffer.height = window.height
  left : -(window.width : ℤ) ≤ window.x
  right : window.x ≤ setup.width
  end_lt : window.x + window.width < 2 ^ 31
  top : -(window.height : ℤ) ≤ window.y
  bottom : window.y ≤ setup.height
  endY_lt : window.y + window.height < 2 ^ 31

/-- The same window, but perhaps with another status or ring. -/
structure Same (window window' : WindowData) : Prop where
  x : window'.x = window.x
  y : window'.y = window.y
  width : window'.width = window.width
  height : window'.height = window.height
  framebuffer : window'.framebuffer = window.framebuffer
  memory : window'.memory = window.memory
  closed : window.status = .closed → window'.status = .closed

end WindowData

/-- The display shows the background where no window is. -/
def Background (display : Framebuffer) (windows : List WindowData) : Prop :=
  ∀ x < display.width, ∀ y < display.height, (∀ window ∈ windows, ¬ window.Covers x y) →
    display.pixel x y = some background

/-- The events that were typed for a window. -/
def eventsFor (id : ℕ) (typed : List (InputEvent × Option ℕ)) : List InputEvent :=
  (typed.filter fun entry => entry.2 = some id).map Prod.fst

/-- A ring has all that was typed for a window since the ring was made, and nothing else. -/
def EventRing.UpToDate (ring : EventRing) (id : ℕ) (typed : List (InputEvent × Option ℕ)) : Prop :=
  ring.start ≤ typed.length ∧ ring.events = eventsFor id (typed.drop ring.start)

/-- All rings are up to date. -/
def Rings (windows : List WindowData) (typed : List (InputEvent × Option ℕ)) : Prop :=
  ∀ (id : ℕ) window ring, windows[id]? = some window → window.eventRing = some ring →
    ring.UpToDate id typed

/-- Between two calls. -/
structure Inv (setup : Setup) (s : Server) : Prop where
  displayWidth : s.displayWidth = setup.width
  displayHeight : s.displayHeight = setup.height
  width : s.displayFramebuffer.width = setup.width
  height : s.displayFramebuffer.height = setup.height
  absXInfo : s.absXInfo = setup.absXInfo
  absYInfo : s.absYInfo = setup.absYInfo
  cursorX : 0 ≤ s.cursorX ∧ s.cursorX ≤ setup.width
  cursorY : 0 ≤ s.cursorY ∧ s.cursorY ≤ setup.height
  placed : ∀ window ∈ s.windows, window.Placed setup
  active : ∀ id, s.activeWindow = some id → ∃ window, s.windows[id]? = some window ∧
    window.status = .opened
  pixels : Background s.displayFramebuffer s.windows
  rings : Rings s.windows s.typed

/-- As time goes by. -/
structure Later (s s' : Server) : Prop where
  windows : ∀ (id : ℕ) window, s.windows[id]? = some window →
    ∃ window', s'.windows[id]? = some window' ∧ window.Same window'
  typed : ∃ added, s'.typed = s.typed ++ added ∧
    ∀ (id : ℕ) window, s.windows[id]? = some window → window.status = .closed →
      eventsFor id added = []

variable {setup : Setup} {env : Surroundings} {codec : Codec} {s s' t : Server}
  {window window' : WindowData} {id : ℕ} {event : InputEvent} {object : Object}
  {display display' : Framebuffer} {windows : List WindowData}
  {typed added : List (InputEvent × Option ℕ)}

/-! ## Windows and their places -/

lemma WindowData.Same.refl : window.Same window := ⟨rfl, rfl, rfl, rfl, rfl, rfl, id⟩

lemma WindowData.Same.trans {window'' : WindowData} (h : window.Same window')
    (h' : window'.Same window'') : window.Same window'' where
  x := h'.x.trans h.x
  y := h'.y.trans h.y
  width := h'.width.trans h.width
  height := h'.height.trans h.height
  framebuffer := h'.framebuffer.trans h.framebuffer
  memory := h'.memory.trans h.memory
  closed := fun hclosed => h'.closed (h.closed hclosed)

lemma WindowData.Same.placed (h : window.Same window') (hplaced : window.Placed setup) :
    window'.Placed setup := by
  obtain ⟨hwidth, hheight, hfw, hfh, hleft, hright, hend, htop, hbottom, hendY⟩ := hplaced
  constructor <;> simp only [h.x, h.y, h.width, h.height, h.framebuffer] <;> assumption

lemma WindowData.Same.covers {x y : ℤ} (h : window.Same window') :
    window'.Covers x y ↔ window.Covers x y := by
  simp only [WindowData.Covers, h.x, h.y, h.width, h.height]

lemma getElem?_of_set {l : List WindowData} (i : ℕ) (h : l[id]? = some window) :
    (l.set id window')[i]? = if i = id then some window' else l[i]? := by
  have hlt := (List.getElem?_eq_some_iff.mp h).1
  rw [List.getElem?_set]
  by_cases hi : i = id
  · simp [hi, hlt]
  · simp [hi, Ne.symm hi]

/-- A window that is replaced by the same one covers what it covered. -/
lemma Background.set (h : Background display windows) (hwindow : windows[id]? = some window)
    (hsame : window.Same window') : Background display (windows.set id window') := by
  intro x hx y hy hnone
  refine h x hx y hy fun other hother hcovers => ?_
  obtain ⟨i, hi⟩ := List.getElem?_of_mem hother
  have hget : (windows.set id window')[i]? = _ := getElem?_of_set i hwindow
  split at hget
  · next heq =>
      subst heq
      cases hwindow.symm.trans hi
      exact hnone window' (List.mem_of_getElem? hget) (hsame.covers.mpr hcovers)
  · exact hnone other (List.mem_of_getElem? (hget.trans hi)) hcovers

/-- What is painted on windows, or in the color of the background, does not matter. -/
lemma Background.paints {color : ℕ → ℕ → Option (BitVec 32)} (h : Background display windows)
    (hpaints : Paints display color display')
    (hcolor : ∀ x y : ℕ, (∀ window ∈ windows, ¬ window.Covers x y) →
      ∀ value, color x y = some value → value = background) : Background display' windows := by
  intro x hx y hy hnone
  rw [hpaints.width] at hx
  rw [hpaints.height] at hy
  cases hvalue : color x y with
  | none => rw [hpaints.pixel_of_none hx hy hvalue, h x hx y hy hnone]
  | some value => rw [hpaints.pixel_of_some hx hy hvalue, hcolor x y hnone value hvalue]

lemma eventsFor_append : eventsFor id (typed ++ added) = eventsFor id typed ++ eventsFor id added := by
  simp [eventsFor]

lemma eventsFor_singleton {focus : Option ℕ} :
    eventsFor id [(event, focus)] = if focus = some id then [event] else [] := by
  by_cases h : focus = some id
  · simp [eventsFor, h]
  · simp [eventsFor, h]

/-- One more event is typed. -/
lemma EventRing.UpToDate.type {ring : EventRing} (h : ring.UpToDate id typed) (event : InputEvent)
    (focus : Option ℕ) :
    ({ ring with events := ring.events ++ eventsFor id [(event, focus)] } : EventRing).UpToDate id
      (typed ++ [(event, focus)]) := by
  obtain ⟨hle, hevents⟩ := h
  refine ⟨hle.trans (by simp), ?_⟩
  simp only
  rw [List.drop_append_of_le_length hle, eventsFor_append, ← hevents]

/-- A window gets another ring. -/
lemma Rings.set (hwindow : windows[id]? = some window)
    (hothers : ∀ i ≠ id, ∀ other ring, windows[i]? = some other → other.eventRing = some ring →
      ring.UpToDate i typed)
    (hring : ∀ ring, window'.eventRing = some ring → ring.UpToDate id typed) :
    Rings (windows.set id window') typed := by
  intro i other ring hother hring'
  rw [getElem?_of_set i hwindow] at hother
  split at hother
  · next heq =>
      subst heq
      cases hother
      exact hring ring hring'
  · next hne => exact hothers i hne other ring hother hring'

/-! ## As time goes by -/

lemma Later.of_same (hwindows : s'.windows = s.windows) (htyped : s'.typed = s.typed) : Later s s' where
  windows := by
    intro id window hwindow
    exact ⟨window, by rw [hwindows, hwindow], .refl⟩
  typed := ⟨[], by rw [htyped, List.append_nil], fun _ _ _ _ => rfl⟩

lemma Later.refl : Later s s := .of_same rfl rfl

lemma Later.trans (h : Later s s') (h' : Later s' t) : Later s t where
  windows := by
    intro id window hwindow
    obtain ⟨window', hwindow', hsame⟩ := h.windows id window hwindow
    obtain ⟨window'', hwindow'', hsame'⟩ := h'.windows id window' hwindow'
    exact ⟨window'', hwindow'', hsame.trans hsame'⟩
  typed := by
    obtain ⟨added, htyped, hclosed⟩ := h.typed
    obtain ⟨added', htyped', hclosed'⟩ := h'.typed
    refine ⟨added ++ added', by rw [htyped', htyped, List.append_assoc], ?_⟩
    intro id window hwindow hstatus
    obtain ⟨window', hwindow', hsame⟩ := h.windows id window hwindow
    rw [eventsFor_append, hclosed id window hwindow hstatus,
      hclosed' id window' hwindow' (hsame.closed hstatus), List.append_nil]

/-- One window is replaced by the same one. -/
lemma Later.set (hwindow : s.windows[id]? = some window) (hsame : window.Same window')
    (hwindows : s'.windows = s.windows.set id window') (htyped : s'.typed = s.typed) : Later s s' where
  windows := by
    intro i other hother
    rw [hwindows, getElem?_of_set i hwindow]
    split
    · next heq =>
        subst heq
        cases hwindow.symm.trans hother
        exact ⟨window', rfl, hsame⟩
    · exact ⟨other, hother, .refl⟩
  typed := ⟨[], by rw [htyped, List.append_nil], fun _ _ _ _ => rfl⟩

/-! ## Keys -/

/-- What is true of keys at any time, however large windows are: the active window is open, and the
rings have what was typed. -/
structure Typing (s : Server) : Prop where
  active : ∀ id, s.activeWindow = some id → ∃ window, s.windows[id]? = some window ∧
    window.status = .opened
  rings : Rings s.windows s.typed

/-- The server has gone on to `s'`, and this is still true. -/
def Goes (s s' : Server) : Prop := Typing s → Typing s' ∧ Later s s'

lemma Inv.typing (h : Inv setup s) : Typing s := ⟨h.active, h.rings⟩

lemma Goes.refl : Goes s s := fun h => ⟨h, .refl⟩

lemma Goes.trans (h : Goes s s') (h' : Goes s' t) : Goes s t := by
  intro htyping
  obtain ⟨htyping', hlater⟩ := h htyping
  obtain ⟨htyping'', hlater'⟩ := h' htyping'
  exact ⟨htyping'', hlater.trans hlater'⟩

/-- An event that is not for a window does not matter to its ring. -/
lemma EventRing.UpToDate.skip {ring : EventRing} {focus : Option ℕ} (h : ring.UpToDate id typed)
    (hfocus : focus ≠ some id) : ring.UpToDate id (typed ++ [(event, focus)]) := by
  have htype := h.type event focus
  rwa [eventsFor_singleton, if_neg hfocus, List.append_nil] at htype

namespace Typing

lemma opened (h : Typing s) (hwindow : s.windows[id]? = some window)
    (hactive : s.activeWindow = some id) : window.status = .opened := by
  obtain ⟨other, hother, hopened⟩ := h.active id hactive
  cases hwindow.symm.trans hother
  exact hopened

/-- Another window becomes active, or none. -/
lemma activate {active : Option ℕ} (h : Typing s)
    (hactive : ∀ id, active = some id → ∃ window, s.windows[id]? = some window ∧
      window.status = .opened)
    (hs' : s'.windows = s.windows ∧ s'.activeWindow = active ∧ s'.typed = s.typed) :
    Typing s' ∧ Later s s' := by
  obtain ⟨hwindows, rfl, htyped⟩ := hs'
  refine ⟨⟨?_, ?_⟩, .of_same hwindows htyped⟩
  · rwa [hwindows]
  · rw [hwindows, htyped]
    exact h.rings

/-- A window is replaced, which is active only if it is open. -/
lemma setActive (h : Typing s) (hwindow : s.windows[id]? = some window)
    (hopened : s.activeWindow = some id → window'.status = .opened) :
    ∀ i, s.activeWindow = some i → ∃ other, (s.windows.set id window')[i]? = some other ∧
      other.status = .opened := by
  intro i hi
  rw [getElem?_of_set i hwindow]
  split
  · next heq =>
      subst heq
      exact ⟨window', rfl, hopened hi⟩
  · exact h.active i hi

/-- A new window is opened behind those that there are. -/
lemma create (h : Typing s) (hstatus : window.status = .opened) (hring : window.eventRing = none)
    (hs' : s'.windows = s.windows ++ [window] ∧ s'.activeWindow = some s.windows.length ∧
      s'.typed = s.typed) : Typing s' ∧ Later s s' := by
  obtain ⟨hwindows, hactive, htyped⟩ := hs'
  refine ⟨⟨?_, ?_⟩, ?_, ⟨[], by rw [htyped, List.append_nil], fun _ _ _ _ => rfl⟩⟩
  · intro i hi
    cases hactive.symm.trans hi
    exact ⟨window, by rw [hwindows, List.getElem?_concat_length], hstatus⟩
  · rw [hwindows, htyped]
    intro i other ring hother hring'
    rw [List.getElem?_append] at hother
    split at hother
    · exact h.rings i other ring hother hring'
    · rw [List.mem_singleton.mp (List.mem_of_getElem? hother), hring] at hring'
      cases hring'
  · intro i other hother
    refine ⟨other, ?_, .refl⟩
    rw [hwindows, List.getElem?_append_left (List.getElem?_eq_some_iff.mp hother).1, hother]

/-- A ring is made anew, and nothing has been typed since. -/
lemma renew (h : Typing s) (hwindow : s.windows[id]? = some window) :
    Rings (s.windows.set id { window with eventRing := some ⟨s.typed.length, []⟩ }) s.typed := by
  refine .set hwindow (fun i _ other ring => h.rings i other ring) fun ring hring => ?_
  cases hring
  exact ⟨le_rfl, by simp [eventsFor]⟩

/-- Nothing is typed for a closed window. -/
lemma later_type (h : Typing s)
    (hwindows : ∀ (i : ℕ) other, s.windows[i]? = some other →
      ∃ other', s'.windows[i]? = some other' ∧ other.Same other')
    (htyped : s'.typed = s.typed ++ [(event, s.activeWindow)]) : Later s s' where
  windows := hwindows
  typed := by
    refine ⟨_, htyped, fun id window hwindow hclosed => ?_⟩
    rw [eventsFor_singleton, if_neg]
    intro heq
    have hopened := h.opened hwindow heq
    rw [hclosed] at hopened
    cases hopened

end Typing

/-- What is done with an event: it goes into the ring of the active window, if that has one. -/
lemma passOn_cases (hpass : s.passOn env event = .ok s') :
    ((∀ id window, s.activeWindow = some id → s.windows[id]? = some window → window.eventRing = none) ∧
      s' = { s with typed := s.typed ++ [(event, s.activeWindow)] }) ∨
    ∃ id window ring, s.activeWindow = some id ∧ s.windows[id]? = some window ∧
      window.eventRing = some ring ∧ s' = { s with
        windows := s.windows.set id { window with
          eventRing := some { ring with events := ring.events ++ [event] } }
        typed := s.typed ++ [(event, s.activeWindow)]
        clock := s.clock + 1 } := by
  rw [Server.passOn] at hpass
  dsimp only at hpass
  split at hpass
  · next hactive =>
      cases hpass
      refine .inl ⟨fun id window hid => ?_, rfl⟩
      rw [hactive] at hid
      cases hid
  · next id hactive =>
      split at hpass
      · cases hpass
      · next window hwindow =>
          split at hpass
          · next hring =>
              cases hpass
              refine .inl ⟨fun i other hi hother => ?_, rfl⟩
              cases hactive.symm.trans hi
              cases hwindow.symm.trans hother
              exact hring
          · next ring hring =>
              obtain ⟨_, -, hpass⟩ := Checked.bind_eq_ok.mp hpass
              cases hpass
              exact .inr ⟨id, window, ring, hactive, hwindow, hring, rfl⟩

lemma passOn_typed (hpass : s.passOn env event = .ok s') :
    s'.typed = s.typed ++ [(event, s.activeWindow)] := by
  rcases passOn_cases hpass with ⟨-, rfl⟩ | ⟨id, window, ring, -, -, -, rfl⟩
  · rfl
  · rfl

/-- **The rings stay up to date** when an event is passed on. -/
lemma passOn_goes (hpass : s.passOn env event = .ok s') : Goes s s' := by
  intro h
  have htyped := passOn_typed hpass
  rcases passOn_cases hpass with ⟨hnone, rfl⟩ | ⟨id, window, ring, hactive, hwindow, hring, rfl⟩
  · refine ⟨⟨h.active, fun i other ring hother hring => ?_⟩, h.later_type ?_ htyped⟩
    · refine (h.rings i other ring hother hring).skip fun hi => ?_
      rw [hnone i other hi hother] at hring
      cases hring
    · exact fun i other hother => ⟨other, hother, .refl⟩
  · have hsame : window.Same { window with
        eventRing := some { ring with events := ring.events ++ [event] } } :=
      ⟨rfl, rfl, rfl, rfl, rfl, rfl, fun hclosed => hclosed⟩
    have hlater : Later s { s with windows := s.windows.set id { window with
        eventRing := some { ring with events := ring.events ++ [event] } } } :=
      .set hwindow hsame rfl rfl
    have hopened := h.opened hwindow
    refine ⟨⟨h.setActive hwindow hopened, ?_⟩, h.later_type hlater.windows htyped⟩
    refine .set hwindow (fun i hne other ring' hother hring' => ?_) fun ring' hring' => ?_
    · refine (h.rings i other ring' hother hring').skip ?_
      rw [hactive]
      exact fun heq => hne (Option.some.inj heq).symm
    · cases hring'
      have htype := (h.rings id window ring hwindow hring).type event s.activeWindow
      rwa [eventsFor_singleton, if_pos hactive] at htype

/-! ## Changes that keep the invariant -/

namespace Inv

/-- Something is painted on the display. -/
lemma paint {color : ℕ → ℕ → Option (BitVec 32)} (h : Inv setup s)
    (hpaints : Paints s.displayFramebuffer color display)
    (hcolor : ∀ x y : ℕ, (∀ window ∈ s.windows, ¬ window.Covers x y) →
      ∀ value, color x y = some value → value = background) :
    Inv setup { s with displayFramebuffer := display } :=
  { h with
    width := hpaints.width.trans h.width
    height := hpaints.height.trans h.height
    pixels := h.pixels.paints hpaints hcolor }

/-- Another window becomes active, or none. -/
lemma activate {active : Option ℕ} (h : Inv setup s)
    (hactive : ∀ id, active = some id → ∃ window, s.windows[id]? = some window ∧
      window.status = .opened) : Inv setup { s with activeWindow := active } :=
  { h with active := hactive }

/-- A window is replaced by the same one. -/
lemma setWindow (h : Inv setup s) (hwindow : s.windows[id]? = some window)
    (hsame : window.Same window') (hactive : s.activeWindow = some id → window'.status = .opened)
    (hrings : Rings (s.windows.set id window') typed) :
    Inv setup { s with windows := s.windows.set id window', typed := typed } :=
  { h with
    placed := by
      intro other hother
      rcases List.mem_or_eq_of_mem_set hother with hmem | rfl
      · exact h.placed other hmem
      · exact hsame.placed (h.placed window (List.mem_of_getElem? hwindow))
    active := h.typing.setActive hwindow hactive
    pixels := h.pixels.set hwindow hsame
    rings := hrings }

end Inv

/-! ## Drawing -/

/-- A window has no pixels outside of its place. -/
lemma image_shown {pixels : ℕ → BitVec 32} {x y : ℤ} (hplaced : window.Placed setup)
    (h : ¬ window.Covers x y) : (Server.shown window pixels).image (x - window.x) (y - window.y) = none := by
  refine Framebuffer.image_eq_none ?_
  rintro u (hu : u < window.framebuffer.width) v (hv : v < window.framebuffer.height) ⟨hxu, hyv⟩
  rw [hplaced.framebuffer_width] at hu
  rw [hplaced.framebuffer_height] at hv
  refine h ⟨⟨?_, ?_⟩, ?_, ?_⟩ <;> omega

/-- The server has gone on to `s'`. -/
def Keeps (setup : Setup) (s s' : Server) : Prop := Inv setup s' ∧ Later s s'

lemma Keeps.trans (h : Keeps setup s s') (h' : Keeps setup s' t) : Keeps setup s t :=
  ⟨h'.1, h.2.trans h'.2⟩

/-- **A window is drawn at its place**, wherever it is. -/
lemma drawWindow_total (env : Surroundings) (h : Inv setup s) (hwindow : s.windows[id]? = some window) :
    ∃ s', s.drawWindow env id = .ok s' ∧ Keeps setup s s' ∧ s'.windows = s.windows ∧
      s'.activeWindow = s.activeWindow := by
  have hplaced := h.placed window (List.mem_of_getElem? hwindow)
  have hwidth := setup.width_lt
  have hheight := setup.height_lt
  have hfit : OffsetsFit s.displayFramebuffer window.x window.y := by
    obtain ⟨hw, hh, -, -, hleft, hright, -, htop, hbottom, -⟩ := hplaced
    have hW : asIsize s.displayFramebuffer.width = setup.width := by
      rw [h.width, asIsize_of_lt (by omega)]
    have hH : asIsize s.displayFramebuffer.height = setup.height := by
      rw [h.height, asIsize_of_lt (by omega)]
    refine ⟨⟨?_, ?_⟩, ⟨?_, ?_⟩, ⟨?_, ?_⟩, ⟨?_, ?_⟩⟩ <;> omega
  have htouches : Touches s.displayFramebuffer window.x (Server.shown window (env.pixels s.clock)) := by
    refine ⟨?_, by rw [h.width]; exact hplaced.right⟩
    show -(window.framebuffer.width : ℤ) ≤ window.x
    rw [hplaced.framebuffer_width]
    exact hplaced.left
  obtain ⟨display, hcopy, hblits⟩ := copyFromRect_blits hfit (.inr htouches)
  refine ⟨{ s with displayFramebuffer := display, clock := s.clock + 1 }, ?_, ⟨?_, .of_same rfl rfl⟩,
    rfl, rfl⟩
  · rw [Server.drawWindow]
    simp only [hwindow, hcopy]
    rfl
  · have hpaint := h.paint hblits.paints fun x y hnone value hvalue => by
      rw [image_shown hplaced (hnone window (List.mem_of_getElem? hwindow))] at hvalue
      cases hvalue
    exact { hpaint with }

/-- A window is drawn, and then the active one. -/
lemma draw_total (env : Surroundings) (h : Inv setup s) (hwindow : s.windows[id]? = some window) :
    ∃ s', s.draw env id = .ok s' ∧ Keeps setup s s' := by
  obtain ⟨s₁, hdraw, hkeeps, hwindows, hactive⟩ := drawWindow_total env h hwindow
  obtain ⟨s₂, hdraw', hkeeps'⟩ : ∃ s₂, s₁.drawActive env id = .ok s₂ ∧ Keeps setup s₁ s₂ := by
    rw [Server.drawActive]
    cases hcase : s₁.activeWindow with
    | none => exact ⟨s₁, rfl, hkeeps.1, .refl⟩
    | some active =>
        by_cases hsame : active = id
        · exact ⟨s₁, by simp [hsame, pure, Except.pure], hkeeps.1, .refl⟩
        · obtain ⟨other, hother, -⟩ := hkeeps.1.active active hcase
          obtain ⟨s₂, hdraw', hkeeps', -⟩ := drawWindow_total env hkeeps.1 hother
          exact ⟨s₂, by simpa [hsame] using hdraw', hkeeps'⟩
  refine ⟨{ s₂ with requests := s₂.requests ++ [.draw] }, ?_, ?_⟩
  · rw [Server.draw, hdraw, Checked.ok_bind, hdraw', Checked.ok_bind]
    rfl
  · exact (hkeeps.trans hkeeps').trans ⟨{ hkeeps'.1 with }, .of_same rfl rfl⟩

/-! ## The calls -/

/-- How the server can end: there is no room in a ring or no memory, a message has the wrong bytes or
method, or the user wants it to. -/
def Ends (env : Surroundings) (e : Panic) : Prop :=
  (∃ clock, env.push clock = .error e) ∨ (∃ clock size, env.allocShared clock size = .error e) ∨
    e ∈ [.unwrap .postcard, .unreachable .unknownMethod, .outOfMemory, .shutdown]

lemma meets_fromPostcard {α : Type} {P : α → Prop} {result : Option α}
    (h : ∀ a, result = some a → P a) : Meets (fromPostcard result) (Ends env) P := by
  cases result with
  | none => exact .throw (.inr (.inr (by decide)))
  | some a => exact .pure (h a rfl)

/-- Memory for a window. -/
lemma alloc_meets {width height clock : ℕ} (hwidth : width < 2 ^ 31) (hheight : height < 2 ^ 31)
    {hw : width < usizeRange} {hh : height < usizeRange} :
    Meets (Framebuffer.alloc (env.allocShared clock) width height hw hh) (Ends env) fun allocated =>
      allocated.1.width = width ∧ allocated.1.height = height := by
  have hrow : 4 * width < 2 ^ 64 := by omega
  have hsize : 4 * width * height < 2 ^ 64 := by
    have hle : 4 * width * height ≤ 4 * (2 ^ 31 - 1) * (2 ^ 31 - 1) :=
      Nat.mul_le_mul (by omega) (by omega)
    exact hle.trans_lt (by decide)
  rw [Framebuffer.alloc, uintMul_eq_ok.mpr ⟨hrow, rfl⟩, Checked.ok_bind, uintMul_eq_ok.mpr ⟨hsize, rfl⟩,
    Checked.ok_bind]
  refine Meets.bind (P := fun _ => True) ⟨fun e he => .inr (.inl ⟨_, _, he⟩), fun _ _ => trivial⟩ ?_
  intro cap _
  split
  · exact .pure ⟨rfl, rfl⟩
  · exact .throw (.inr (.inr (by decide)))

/-- Half of the size of a window is subtracted from a place on the display. -/
lemma place_of_cursor {cursor : ℤ} {size limit : ℕ} (hcursor : 0 ≤ cursor ∧ cursor ≤ limit)
    (hlimit : limit < 2 ^ 30) (hsize : size < 2 ^ 31) :
    InI32 (cursor - (asI32 size).tdiv 2) ∧ -(size : ℤ) ≤ cursor - (asI32 size).tdiv 2 ∧
      cursor - (asI32 size).tdiv 2 ≤ limit ∧ cursor - (asI32 size).tdiv 2 + size < 2 ^ 31 := by
  have hhalf : (asI32 size).tdiv 2 = (size : ℤ) / 2 := by
    rw [asI32_of_lt hsize, Int.tdiv_eq_ediv_of_nonneg (Int.natCast_nonneg size)]
  rw [hhalf]
  refine ⟨⟨?_, ?_⟩, ?_, ?_, ?_⟩ <;> omega

/-- A new window is opened behind those that there are. -/
lemma Inv.create (h : Inv setup s) (hplaced : window.Placed setup) (hstatus : window.status = .opened)
    (hring : window.eventRing = none) :
    Keeps setup s { s with
      windows := s.windows ++ [window], activeWindow := some s.windows.length, clock := s.clock + 1 } := by
  have hgoes : Goes s { s with
      windows := s.windows ++ [window], activeWindow := some s.windows.length, clock := s.clock + 1 } :=
    fun htyping => htyping.create hstatus hring ⟨rfl, rfl, rfl⟩
  obtain ⟨htyping, hlater⟩ := hgoes h.typing
  refine ⟨{ h with placed := ?_, active := htyping.active, pixels := ?_, rings := htyping.rings }, hlater⟩
  · intro other hother
    rcases List.mem_append.mp hother with hmem | hmem
    · exact h.placed other hmem
    · rwa [List.mem_singleton.mp hmem]
  · intro x hx y hy hnone
    exact h.pixels x hx y hy fun other hother => hnone other (List.mem_append_left _ hother)

/-- What the calls and events of the server keep. -/
def contract (setup : Setup) : Contract Server Object where
  Inv := Inv setup
  Valid s object := ∀ id, object = .window id → id < s.windows.length
  Later := Later
  Derives object other :=
    (object = .server ∧ ∃ id, other = .window id) ∨ (object = .keyboard ∧ other = .server)
  Answers _ _ _ _ _ := True
  refl _ := .refl
  trans := Later.trans
  valid := by
    intro s t object hlater hvalid id hid
    obtain ⟨_, hwindow, -⟩ := hlater.windows id _ (List.getElem?_eq_getElem (hvalid id hid))
    exact (List.getElem?_eq_some_iff.mp hwindow).1

lemma Keeps.post (h : Keeps setup s s') : (contract setup).Post s object s' [] :=
  ⟨h.1, h.2, fun _ hother => absurd hother List.not_mem_nil⟩

/-- The sizes that a client may ask for. -/
def Accepted (codec : Codec) (object : Object) (method : ℕ) (args : List UInt8) : Prop :=
  object = .server → method = 0 → ∀ width height, codec.size args = some (width, height) →
    width.toNat < 2 ^ 31 ∧ height.toNat < 2 ^ 31

lemma createWindow_ensures {width height : UInt32} (h : Inv setup s) (hwidth : width.toNat < 2 ^ 31)
    (hheight : height.toNat < 2 ^ 31) :
    (s.createWindow env width height).Ensures (Ends env) fun left granted =>
      (contract setup).Post s .server left.1 granted := by
  simp only [Server.createWindow, ensures_bind, ensures_liftM, ensures_grantObject, ensures_pure]
  refine (alloc_meets hwidth hheight).mono (fun _ he => he) ?_
  rintro ⟨framebuffer, memory⟩ ⟨hfw, hfh⟩
  obtain ⟨hx, hleft, hright, hend⟩ := place_of_cursor h.cursorX setup.width_lt hwidth
  obtain ⟨hy, htop, hbottom, hendY⟩ := place_of_cursor h.cursorY setup.height_lt hheight
  refine .of_ok (i32Sub_of_in hx) (.of_ok (i32Sub_of_in hy) fun cap => ?_)
  have hplaced : WindowData.Placed setup ⟨s.cursorX - (asI32 width.toNat).tdiv 2,
      s.cursorY - (asI32 height.toNat).tdiv 2, width.toNat, height.toNat, .opened, framebuffer, memory,
      none⟩ := ⟨hwidth, hheight, hfw, hfh, hleft, hright, hend, htop, hbottom, hendY⟩
  have hkeeps := h.create hplaced rfl rfl
  refine ⟨hkeeps.1, hkeeps.2, fun other hother => ?_⟩
  obtain rfl : other = .window s.windows.length := by simpa using hother
  refine ⟨?_, .inl ⟨rfl, _, rfl⟩⟩
  intro id hid
  cases hid
  simp

lemma callServer_ensures {method : ℕ} {args : List UInt8} (h : Inv setup s)
    (haccepted : Accepted codec .server method args) :
    (callServer env codec s method args).Ensures (Ends env) fun left granted =>
      (contract setup).Post s .server left.1 granted := by
  unfold callServer
  split
  · simp only [ensures_bind, ensures_liftM, ensures_pure]
    refine meets_fromPostcard ?_
    rintro ⟨width, height⟩ hdecoded
    obtain ⟨hwidth, hheight⟩ := haccepted rfl rfl width height hdecoded
    refine (createWindow_ensures h hwidth hheight).mono (fun _ he => he) fun left granted hpost => ?_
    exact meets_fromPostcard fun result _ => by simpa using hpost
  · exact .inr (.inr (by decide))

/-- A ring is made anew. -/
lemma events_ensures {sender : ProcessId} (h : Inv setup s) (hwindow : s.windows[id]? = some window) :
    (s.events env id sender).Ensures (Ends env) fun left granted =>
      (contract setup).Post s (.window id) left.1 granted := by
  simp only [Server.events, ensures_bind, ensures_liftM, hwindow, ensures_forwardTo, ensures_pure]
  refine ⟨fun e he => .inr (.inl ⟨_, _, he⟩), fun memory _ cap => ?_⟩
  have hsame : window.Same { window with eventRing := some ⟨s.typed.length, []⟩ } :=
    ⟨rfl, rfl, rfl, rfl, rfl, rfl, fun hclosed => hclosed⟩
  have hopened := h.typing.opened hwindow
  have hset := h.setWindow hwindow hsame hopened (h.typing.renew hwindow)
  exact Keeps.post ⟨{ hset with }, .set hwindow hsame rfl rfl⟩

lemma callWindow_ensures {method : ℕ} {sender : ProcessId} (h : Inv setup s)
    (hwindow : s.windows[id]? = some window) :
    (callWindow env codec s method id sender).Ensures (Ends env) fun left granted =>
      (contract setup).Post s (.window id) left.1 granted := by
  unfold callWindow
  split
  · -- `framebuffer`
    simp only [Server.framebuffer, hwindow, ensures_bind, ensures_forwardTo, ensures_pure,
      ensures_liftM]
    intro cap
    exact meets_fromPostcard fun _ _ => Keeps.post ⟨h, .refl⟩
  · -- `draw`
    simp only [ensures_bind, ensures_liftM, ensures_pure]
    obtain ⟨s', hdraw, hkeeps⟩ := draw_total env h hwindow
    exact .of_ok hdraw hkeeps.post
  · -- `events`
    simp only [ensures_bind, ensures_liftM, ensures_pure]
    refine (events_ensures h hwindow).mono (fun _ he => he) fun left granted hpost => ?_
    exact meets_fromPostcard fun result _ => by simpa using hpost
  · exact .inr (.inr (by decide))

/-- **A call keeps the contract.** -/
lemma callMethod_ensures {method : ℕ} {args : List UInt8} (sender : ProcessId) (h : Inv setup s)
    (hvalid : (contract setup).Valid s object) (haccepted : Accepted codec object method args) :
    (callMethod env codec s method args object sender).Ensures (Ends env) fun left granted =>
      (contract setup).Post s object left.1 granted := by
  cases object with
  | server => exact callServer_ensures h haccepted
  | window id => exact callWindow_ensures h (List.getElem?_eq_getElem (hvalid id rfl))
  | keyboard => exact .inr (.inr (by decide))
  | mouse => exact .inr (.inr (by decide))

/-! ## The keyboard -/

/-- A place is cut to the display. -/
lemma clamp_eq {i : ℤ} {limit : ℕ} (hlimit : limit < 2 ^ 30) :
    asUsize (min (max i 0) (asI32 limit)) = (min (max i 0) limit).toNat := by
  rw [asI32_of_lt (by omega), asUsize_of_nonneg (by omega)]

/-- **The active window is closed**, and the background is where it was. -/
lemma closeActive_total (h : Inv setup s) : ∃ s', s.closeActive = .ok s' ∧ Keeps setup s s' := by
  rw [Server.closeActive]
  cases hactive : s.activeWindow with
  | none => exact ⟨s, rfl, h, .refl⟩
  | some id =>
      obtain ⟨window, hwindow, -⟩ := h.active id hactive
      have hmem := List.mem_of_getElem? hwindow
      obtain ⟨hw, hh, -, -, hleft, hright, hend, htop, hbottom, hendY⟩ := h.placed window hmem
      have hwidth := setup.width_lt
      have hheight := setup.height_lt
      have hx : InI32 (window.x + window.width) := by constructor <;> omega
      have hy : InI32 (window.y + window.height) := by constructor <;> omega
      let left := (min (max window.x 0) setup.width).toNat
      let right := (min (max (window.x + window.width) 0) setup.width).toNat
      let top := (min (max window.y 0) setup.height).toNat
      let bottom := (min (max (window.y + window.height) 0) setup.height).toNat
      obtain ⟨display, hfill, hpaints⟩ : ∃ display,
          s.displayFramebuffer.fillRect left top right bottom 191 215 234 255 = .ok display ∧
            Paints s.displayFramebuffer (rectangle left top right bottom background) display :=
        Framebuffer.fillRect_paints (by rw [h.width]; exact setup.width_pos) (by omega)
          (by rw [h.width]; omega) (by omega) (by rw [h.height]; omega)
      have hsame : window.Same { window with status := .closed } :=
        ⟨rfl, rfl, rfl, rfl, rfl, rfl, fun _ => rfl⟩
      refine ⟨{ s with
        displayFramebuffer := display
        windows := s.windows.set id { window with status := .closed }
        activeWindow := none
        requests := s.requests ++ [.draw] }, ?_, ?_⟩
      · simp only [left, right, top, bottom] at hfill
        simp only [hwindow, asI32_of_lt hw, asI32_of_lt hh, i32Add_of_in hx, i32Add_of_in hy,
          Checked.ok_bind, h.displayWidth, h.displayHeight, clamp_eq hwidth, clamp_eq hheight, hfill]
        rfl
      · have hquiet : Inv setup { s with activeWindow := none } := h.activate fun _ hnone => by cases hnone
        have hset := hquiet.setWindow hwindow hsame (fun hnone => by cases hnone)
          (.set hwindow (fun i _ other ring => h.rings i other ring) fun ring => h.rings id window ring hwindow)
        have hpaint := hset.paint hpaints fun x y _ value hvalue => by
          rw [rectangle] at hvalue
          split at hvalue
          · exact (Option.some.inj hvalue).symm
          · cases hvalue
        exact ⟨{ hpaint with }, .set hwindow hsame rfl rfl⟩

/-- The windows and what was typed are as they were, and so is all that the invariant is about. -/
lemma Inv.quiet {shortcut : Shortcut} {requests : List Request} {clock : ℕ} (h : Inv setup s) :
    Keeps setup s { s with globalShortcut := shortcut, requests := requests, clock := clock } :=
  ⟨{ h with }, .of_same rfl rfl⟩

lemma openTerminal_ensures (h : Inv setup s) :
    (s.openTerminal env).Ensures (Ends env) fun s' granted =>
      (contract setup).Post s .keyboard s' granted := by
  simp only [Server.openTerminal, ensures_bind, ensures_grantObject, ensures_forwardTo, ensures_pure]
  intro windowing term fs imageViewer windowing' net shutdown
  have hnone : Inv setup { s with activeWindow := none } := h.activate fun _ hnone => by cases hnone
  refine ⟨{ hnone with }, .of_same rfl rfl, fun other hother => ?_⟩
  obtain rfl : other = .server := by simpa using hother
  exact ⟨fun id hid => absurd hid (by simp), .inr ⟨rfl, rfl⟩⟩

lemma handleShortcut_ensures (h : Inv setup s) :
    (s.handleShortcut env event).Ensures (Ends env) fun s' granted =>
      (contract setup).Post s .keyboard s' granted := by
  rw [Server.handleShortcut]
  split
  · cases s.globalShortcut with
    | notStarted =>
        dsimp only
        split
        · exact h.quiet.post
        · exact Keeps.post ⟨h, .refl⟩
    | alt =>
        dsimp only
        split_ifs
        · exact .inr (.inr (by decide))
        · exact openTerminal_ensures h
        · rw [ensures_liftM]
          obtain ⟨s', hclose, hkeeps⟩ := closeActive_total h
          exact .of_ok hclose hkeeps.post
        · exact h.quiet.post
        · exact h.quiet.post
        · exact Keeps.post ⟨h, .refl⟩
  · exact Keeps.post ⟨h, .refl⟩

/-- **An event is passed on** to the active window, if it has a ring. -/
lemma passOn_meets (h : Inv setup s) : Meets (s.passOn env event) (Ends env) (Keeps setup s) := by
  refine ⟨fun e he => ?_, fun s' hpass => ?_⟩
  · rw [Server.passOn] at he
    dsimp only at he
    split at he
    · cases he
    · next id hactive =>
        obtain ⟨window, hwindow, -⟩ := h.active id hactive
        simp only [hwindow] at he
        split at he
        · cases he
        · refine .inl ⟨s.clock, ?_⟩
          cases hpush : env.push s.clock with
          | error e' =>
              rw [hpush] at he
              cases he
              rfl
          | ok _ =>
              rw [hpush] at he
              cases he
  · obtain ⟨htyping, hlater⟩ := passOn_goes hpass h.typing
    refine ⟨?_, hlater⟩
    rcases passOn_cases hpass with ⟨-, rfl⟩ | ⟨id, window, ring, hactive, hwindow, hring, rfl⟩
    · exact { h with rings := htyping.rings }
    · have hsame : window.Same { window with
          eventRing := some { ring with events := ring.events ++ [event] } } :=
        ⟨rfl, rfl, rfl, rfl, rfl, rfl, fun hclosed => hclosed⟩
      have hopened := h.typing.opened hwindow
      have hset := h.setWindow hwindow hsame hopened htyping.rings
      exact { hset with }

/-- **A key is observed.** -/
lemma observeKeyboard_ensures (h : Inv setup s) :
    (s.observeKeyboard env event).Ensures (Ends env) fun s' granted =>
      (contract setup).Post s .keyboard s' granted := by
  simp only [Server.observeKeyboard, ensures_bind, ensures_liftM]
  refine (handleShortcut_ensures h).mono (fun _ he => he) ?_
  rintro s₁ granted ⟨hinv, hlater, hgranted⟩
  refine (passOn_meets hinv).mono (fun _ he => he) ?_
  rintro s₂ ⟨hinv', hlater'⟩
  refine ⟨hinv', hlater.trans hlater', fun other hother => ?_⟩
  rw [List.append_nil] at hother
  obtain ⟨hvalid, hderives⟩ := hgranted other hother
  exact ⟨(contract setup).valid hlater' hvalid, hderives⟩

/-! ## The mouse -/

/-- The window would be clicked. -/
def Server.UnderCursor (s : Server) (window : WindowData) : Prop :=
  window.Covers s.cursorX s.cursorY ∧ window.status = .opened

lemma isClicked_total (hplaced : window.Placed setup) :
    ∃ clicked, s.isClicked window = .ok clicked ∧ (clicked = true ↔ s.UnderCursor window) := by
  obtain ⟨hw, hh, -, -, hleft, -, hend, htop, -, hendY⟩ := hplaced
  have hx : InI32 (window.x + window.width) := by constructor <;> omega
  have hy : InI32 (window.y + window.height) := by constructor <;> omega
  rw [Server.isClicked, asI32_of_lt hw, asI32_of_lt hh, i32Add_of_in hx, i32Add_of_in hy]
  simp only [Checked.ok_bind, Server.UnderCursor, WindowData.Covers]
  split_ifs with hcursor hcursor'
  · exact ⟨false, rfl, by simp; omega⟩
  · exact ⟨false, rfl, by simp; omega⟩
  · refine ⟨_, rfl, ?_⟩
    rw [decide_eq_true_iff]
    constructor
    · rintro ⟨hlt, hstatus⟩
      exact ⟨by omega, hstatus⟩
    · rintro ⟨hcovers, hstatus⟩
      exact ⟨by omega, hstatus⟩

/-- `active` is the last of these windows that is under the cursor, or `old` if there is none. -/
def Server.LastClicked (s : Server) (windows : List WindowData) (old active : Option ℕ) : Prop :=
  (∃ id window, active = some id ∧ windows[id]? = some window ∧ s.UnderCursor window ∧
    ∀ (i : ℕ) other, id < i → windows[i]? = some other → ¬ s.UnderCursor other) ∨
  (active = old ∧ ∀ window ∈ windows, ¬ s.UnderCursor window)

/-- The loop over the windows, from the left. -/
lemma click_loop (windows : List WindowData) (hplaced : ∀ window ∈ windows, window.Placed setup)
    (old : Option ℕ) : ∃ active,
      windows.zipIdx.foldlM (fun activeWindow (window, windowIndex) => do
        if ← s.isClicked window then pure (some windowIndex) else pure activeWindow) old = .ok active ∧
      s.LastClicked windows old active := by
  induction windows using List.reverseRecOn with
  | nil => exact ⟨old, rfl, .inr ⟨rfl, fun _ hmem => absurd hmem List.not_mem_nil⟩⟩
  | append_singleton windows window ih =>
      obtain ⟨active, hloop, hlast⟩ := ih fun other hother => hplaced other (List.mem_append_left _ hother)
      obtain ⟨clicked, hclicked, hiff⟩ := isClicked_total (s := s) (hplaced window (by simp))
      rw [List.zipIdx_append, List.foldlM_append, hloop, Checked.ok_bind]
      simp only [List.zipIdx_cons, List.zipIdx_nil, List.foldlM_cons, List.foldlM_nil, hclicked,
        Checked.ok_bind, Nat.zero_add]
      cases clicked with
      | true =>
          refine ⟨some windows.length, rfl, .inl ⟨windows.length, window, rfl,
            List.getElem?_concat_length, hiff.mp rfl, fun i other hlt hother => ?_⟩⟩
          have := (List.getElem?_eq_some_iff.mp hother).1
          rw [List.length_append, List.length_singleton] at this
          omega
      | false =>
          have hnot : ¬ s.UnderCursor window := fun hunder => by simpa using hiff.mpr hunder
          refine ⟨active, rfl, ?_⟩
          rcases hlast with ⟨id, other, rfl, hother, hunder, hrest⟩ | ⟨rfl, hnone⟩
          · refine .inl ⟨id, other, rfl, ?_, hunder, fun i another hlt hanother => ?_⟩
            · rw [List.getElem?_append_left (List.getElem?_eq_some_iff.mp hother).1, hother]
            · rw [List.getElem?_append] at hanother
              split at hanother
              · exact hrest i another hlt hanother
              · rwa [List.mem_singleton.mp (List.mem_of_getElem? hanother)]
          · refine .inr ⟨rfl, fun other hother => ?_⟩
            rcases List.mem_append.mp hother with hmem | hmem
            · exact hnone other hmem
            · rwa [List.mem_singleton.mp hmem]

/-- **A click makes the topmost open window under the cursor the active one**, if there is one. -/
lemma click_total (h : Inv setup s) : ∃ active, s.click = .ok { s with activeWindow := active } ∧
    s.LastClicked s.windows s.activeWindow active ∧ Keeps setup s { s with activeWindow := active } := by
  obtain ⟨active, hloop, hlast⟩ := click_loop s.windows h.placed s.activeWindow
  refine ⟨active, ?_, hlast, h.activate ?_, .of_same rfl rfl⟩
  · rw [Server.click, hloop]
    rfl
  · rcases hlast with ⟨id, window, rfl, hwindow, hunder, -⟩ | ⟨rfl, -⟩
    · intro i hi
      cases hi
      exact ⟨window, hwindow, hunder.2⟩
    · exact h.active

/-- What the devices report: a pointer is on its axes, and a mouse is not moved too far. -/
def Observed (setup : Setup) (object : Object) (event : InputEvent) : Prop :=
  object = .mouse →
    (event.type = evRel → -2 ^ 30 ≤ asI32 event.value.toNat ∧ asI32 event.value.toNat ≤ 2 ^ 30) ∧
    (event.type = evAbs → event.code = absX →
      setup.absXInfo.min.toNat ≤ event.value.toNat ∧ event.value.toNat ≤ setup.absXInfo.max.toNat) ∧
    (event.type = evAbs → event.code = absY →
      setup.absYInfo.min.toNat ≤ event.value.toNat ∧ event.value.toNat ≤ setup.absYInfo.max.toNat)

/-- A place on an axis is one on the display. -/
lemma fromAbs_total {value : UInt32} {info : InputAbsinfo} {res : ℕ} (hres : res < 2 ^ 30)
    (hinfo : info.min.toNat < info.max.toNat) (hmin : info.min.toNat ≤ value.toNat)
    (hmax : value.toNat ≤ info.max.toNat) :
    ∃ c : ℤ, Server.fromAbs value info res = .ok c ∧ 0 ≤ c ∧ c ≤ res := by
  have hvalue := value.toNat_lt
  have hrange : info.max.toNat - info.min.toNat ≠ 0 := by omega
  have hscaled : (value.toNat - info.min.toNat) * res < 2 ^ 64 := by
    have hle : (value.toNat - info.min.toNat) * res ≤ 2 ^ 32 * 2 ^ 30 :=
      Nat.mul_le_mul (by omega) (by omega)
    exact hle.trans_lt (by decide)
  have hquotient : (value.toNat - info.min.toNat) * res / (info.max.toNat - info.min.toNat) ≤ res := by
    refine Nat.div_le_of_le_mul ?_
    exact Nat.mul_le_mul_right _ (by omega)
  refine ⟨((value.toNat - info.min.toNat) * res / (info.max.toNat - info.min.toNat) : ℕ), ?_, ?_, ?_⟩
  · rw [Server.fromAbs, uintSub_eq_ok.mpr ⟨hmin, rfl⟩, Checked.ok_bind, uintMul_eq_ok.mpr ⟨hscaled, rfl⟩,
      Checked.ok_bind, uintSub_eq_ok.mpr ⟨hinfo.le, rfl⟩, Checked.ok_bind, ensure_pos hrange,
      Checked.ok_bind, asI32_of_lt (by omega)]
    rfl
  · exact Int.natCast_nonneg _
  · exact_mod_cast hquotient

/-- The cursor is moved on the display. -/
lemma Inv.moveX {c : ℤ} (h : Inv setup s) (hc : 0 ≤ c ∧ c ≤ setup.width) :
    Keeps setup s { s with cursorX := c } := ⟨{ h with cursorX := hc }, .of_same rfl rfl⟩

lemma Inv.moveY {c : ℤ} (h : Inv setup s) (hc : 0 ≤ c ∧ c ≤ setup.height) :
    Keeps setup s { s with cursorY := c } := ⟨{ h with cursorY := hc }, .of_same rfl rfl⟩

/-- **An event of the mouse never ends the server.** -/
lemma observeMouse_total (h : Inv setup s) (hobserved : Observed setup .mouse event) :
    ∃ s', s.observeMouse event = .ok s' ∧ Keeps setup s s' := by
  obtain ⟨hrel, habsX, habsY⟩ := hobserved rfl
  have hwidth := setup.width_lt
  have hheight := setup.height_lt
  have hcursorX := h.cursorX
  have hcursorY := h.cursorY
  have hdisplayWidth : asI32 setup.width = setup.width := asI32_of_lt (by omega)
  have hdisplayHeight : asI32 setup.height = setup.height := asI32_of_lt (by omega)
  rw [Server.observeMouse]
  split_ifs with hkey hclick hrel' hcode hcode' habs hcode hcode' hsyn
  · obtain ⟨active, hclicked, -, hkeeps⟩ := click_total h
    exact ⟨_, hclicked, hkeeps⟩
  · exact ⟨s, rfl, h, .refl⟩
  · obtain ⟨hlow, hhigh⟩ := hrel hrel'
    have hin : InI32 (s.cursorX + asI32 event.value.toNat) := by constructor <;> omega
    refine ⟨_, ?_, h.moveX (c := min (max (s.cursorX + asI32 event.value.toNat) 0) setup.width) (by omega)⟩
    rw [i32Add_of_in hin, Checked.ok_bind, h.displayWidth, hdisplayWidth]
    rfl
  · obtain ⟨hlow, hhigh⟩ := hrel hrel'
    have hin : InI32 (s.cursorY + asI32 event.value.toNat) := by constructor <;> omega
    refine ⟨_, ?_, h.moveY (c := min (max (s.cursorY + asI32 event.value.toNat) 0) setup.height) (by omega)⟩
    rw [i32Add_of_in hin, Checked.ok_bind, h.displayHeight, hdisplayHeight]
    rfl
  · exact ⟨s, rfl, h, .refl⟩
  · obtain ⟨hmin, hmax⟩ := habsX habs hcode
    obtain ⟨c, hfrom, hc⟩ := fromAbs_total hwidth setup.absX_lt hmin hmax
    refine ⟨_, ?_, h.moveX hc⟩
    rw [h.absXInfo, h.displayWidth, hfrom]
    rfl
  · obtain ⟨hmin, hmax⟩ := habsY habs hcode'
    obtain ⟨c, hfrom, hc⟩ := fromAbs_total hheight setup.absY_lt hmin hmax
    refine ⟨_, ?_, h.moveY hc⟩
    rw [h.absYInfo, h.displayHeight, hfrom]
    rfl
  · exact ⟨s, rfl, h, .refl⟩
  · exact ⟨_, rfl, h.quiet⟩
  · exact ⟨s, rfl, h, .refl⟩

/-! ## The contract -/

/-- **The server keeps its contract.** -/
lemma kept (setup : Setup) (codec : Codec) : (contract setup).Kept (impl env codec) (Ends env)
    (Accepted codec) (Observed setup) where
  call := by
    intro s object method args sender hinv hvalid haccepted
    exact (callMethod_ensures sender hinv hvalid haccepted).mono (fun _ he => he) fun left granted hpost =>
      ⟨hpost, trivial⟩
  observe := by
    intro s object event hinv _ hobserved
    cases object with
    | keyboard => exact observeKeyboard_ensures hinv
    | mouse =>
        obtain ⟨s', hmouse, hkeeps⟩ := observeMouse_total hinv hobserved
        show (liftM (s.observeMouse event) : Behaviour Object Server).Ensures _ _
        rw [ensures_liftM]
        exact .of_ok hmouse hkeeps.post
    | server => exact Keeps.post ⟨hinv, .refl⟩
    | window id => exact Keeps.post ⟨hinv, .refl⟩

/-! ## From the start -/

variable {setup : Setup} {s : Server} {pid : ProcessId} {exported : CapabilityCertificateValue}
  {events : List (Dispatch.Event InputEvent)} {d : Dispatch Server Object}
  {shown image cursor : Framebuffer} {fs imageViewer net shutdown : RawCapability}

/-- The loop begins with the server that `main` starts. -/
def start (s : Server) (exported : CapabilityCertificateValue) : Dispatch Server Object :=
  .new s .server [.keyboard, .mouse] exported

/-- Nobody draws, and there is room for everything. -/
def quietSurroundings : Surroundings where
  pixels _ _ := 0
  push _ := pure ()
  allocShared _ _ := pure (.slot .kernel 0)
  spawn _ := .slot .kernel 0

/-- All windows have one pixel. -/
def pixelCodec : Codec where
  size _ := some (1, 1)
  capability _ := some []
  stream _ _ := some []

/-- The server of a small screen. -/
def smallServer : Server :=
  initial smallScreen (.slot .kernel 0) (.slot .kernel 0) (.slot .kernel 0) (.slot .kernel 0) ⟨0, 1⟩
    ⟨0, 1⟩

/-- The letter A is pressed. -/
def pressA : InputEvent := ⟨evKey, 30, 1⟩

/-- A client opens a window and asks for its events, and a key is pressed. -/
def openAndType (pid client : ProcessId) : List (Dispatch.Event InputEvent) :=
  [.receive (.slot (.userspace pid) 0) 0 [] client, .receive (.slot (.userspace pid) 1) 1000 [] client,
    .idle fun _ => [pressA]]

lemma observed_pressA (setup : Setup) (object : Object) : Observed setup object pressA := by
  intro _
  exact ⟨fun h => absurd h (by decide), fun h => absurd h (by decide), fun h => absurd h (by decide)⟩

lemma accepted_pixelCodec (object : Object) (method : ℕ) (args : List UInt8) :
    Accepted pixelCodec object method args := by
  intro _ _ width height hsize
  cases hsize
  exact ⟨by decide, by decide⟩

/-- The window is open, and its ring has the key. -/
lemma run_openAndType (setup : Setup) : ∃ pid client d,
    (start smallServer (.granted .kernel)).run (impl quietSurroundings pixelCodec) pid
      (openAndType pid client) = .ok d ∧
    (∃ window, d.server.windows[0]? = some window ∧ window.eventRing = some ⟨0, [pressA]⟩) ∧
    Contract.Admissible (impl quietSurroundings pixelCodec) pid (Accepted pixelCodec) (Observed setup)
      (start smallServer (.granted .kernel)) (openAndType pid client) := by
  refine ⟨⟨1, by decide, by decide⟩, ⟨2, by decide, by decide⟩, _, rfl, ⟨_, rfl, rfl⟩, ?_⟩
  refine ⟨⟨.kernel, rfl, fun _ => Nat.one_pos⟩, fun object _ => accepted_pixelCodec _ _ _, fun d₁ h₁ => ?_⟩
  cases h₁
  refine ⟨⟨.userspace ⟨2, by decide, by decide⟩, rfl, fun h => by cases h⟩,
    fun object _ => accepted_pixelCodec _ _ _, fun d₂ _ => ?_⟩
  refine ⟨trivial, fun i object _ value hvalue => ?_, fun _ _ => trivial⟩
  rw [List.mem_singleton.mp hvalue]
  exact observed_pressA setup object

/-- What the keyboard polls in a turn. -/
def keysOf : Dispatch.Event InputEvent → List InputEvent
  | .receive .. => []
  | .idle polled => polled 0

/-- What is observed of a key. -/
def keyPolled (object : Object) (event : InputEvent) : List InputEvent :=
  if object = .keyboard then [event] else []

lemma recordOf_keyPolled (event : Dispatch.Event InputEvent) :
    Dispatch.recordOf (fun _ _ => []) keyPolled [Object.keyboard, .mouse] event = keysOf event := by
  cases event with
  | receive cap method args sender => rfl
  | idle polled =>
      have hkeyboard : (polled 0).flatMap (keyPolled .keyboard) = polled 0 := List.flatMap_singleton' _
      have hmouse : (polled 1).flatMap (keyPolled .mouse) = [] := List.flatMap_eq_nil_iff.mpr fun _ _ => rfl
      simp [Dispatch.recordOf, keysOf, hkeyboard, hmouse]

/-- Nothing has changed that keys depend on. -/
structure SameKeys (s s' : Server) : Prop where
  windows : s'.windows = s.windows
  activeWindow : s'.activeWindow = s.activeWindow
  typed : s'.typed = s.typed

lemma SameKeys.trans (h : SameKeys s s') (h' : SameKeys s' t) : SameKeys s t :=
  ⟨h'.windows.trans h.windows, h'.activeWindow.trans h.activeWindow, h'.typed.trans h.typed⟩

lemma SameKeys.goes (h : SameKeys s s') : Goes s s' ∧ s'.typed = s.typed :=
  ⟨fun htyping => htyping.activate htyping.active ⟨h.windows, h.activeWindow, h.typed⟩, h.typed⟩

lemma drawWindow_sameKeys (hdraw : s.drawWindow env id = .ok s') : SameKeys s s' := by
  rw [Server.drawWindow] at hdraw
  split at hdraw
  · cases hdraw
  · obtain ⟨_, -, hdraw⟩ := Checked.bind_eq_ok.mp hdraw
    cases hdraw
    exact ⟨rfl, rfl, rfl⟩

lemma draw_sameKeys (hdraw : s.draw env id = .ok s') : SameKeys s s' := by
  obtain ⟨s₁, hwindow, hdraw⟩ := Checked.bind_eq_ok.mp hdraw
  obtain ⟨s₂, hactive, hdraw⟩ := Checked.bind_eq_ok.mp hdraw
  cases hdraw
  have hsame : SameKeys s₁ s₂ := by
    rw [Server.drawActive] at hactive
    split at hactive
    · cases hactive
      exact ⟨rfl, rfl, rfl⟩
    · split at hactive
      · exact drawWindow_sameKeys hactive
      · cases hactive
        exact ⟨rfl, rfl, rfl⟩
  exact ((drawWindow_sameKeys hwindow).trans hsame).trans ⟨rfl, rfl, rfl⟩

lemma closeActive_goes (hclose : s.closeActive = .ok s') : Goes s s' ∧ s'.typed = s.typed := by
  rw [Server.closeActive] at hclose
  split at hclose
  · cases hclose
    exact ⟨.refl, rfl⟩
  · next id hactive =>
      split at hclose
      · cases hclose
      · next window hwindow =>
          obtain ⟨_, -, hclose⟩ := Checked.bind_eq_ok.mp hclose
          obtain ⟨_, -, hclose⟩ := Checked.bind_eq_ok.mp hclose
          obtain ⟨_, -, hclose⟩ := Checked.bind_eq_ok.mp hclose
          cases hclose
          have hsame : window.Same { window with status := .closed } :=
            ⟨rfl, rfl, rfl, rfl, rfl, rfl, fun _ => rfl⟩
          refine ⟨fun h => ⟨⟨?_, ?_⟩, .set hwindow hsame rfl rfl⟩, rfl⟩
          · intro i hnone
            cases hnone
          · exact .set hwindow (fun i _ other ring => h.rings i other ring) fun ring =>
              h.rings id window ring hwindow

lemma isClicked_opened (hclicked : s.isClicked window = .ok true) : window.status = .opened := by
  rw [Server.isClicked] at hclicked
  split at hclicked
  · cases hclicked
  · obtain ⟨right, -, hclicked⟩ := Checked.bind_eq_ok.mp hclicked
    split at hclicked
    · cases hclicked
    · obtain ⟨bottom, -, hclicked⟩ := Checked.bind_eq_ok.mp hclicked
      exact (of_decide_eq_true (Except.ok.inj hclicked)).2

/-- A click leaves the active window as it is, or makes an open one active. -/
lemma click_goes (hclick : s.click = .ok s') : Goes s s' ∧ s'.typed = s.typed := by
  obtain ⟨active, hloop, hclick⟩ := Checked.bind_eq_ok.mp hclick
  cases hclick
  refine ⟨fun h => h.activate ?_ ⟨rfl, rfl, rfl⟩, rfl⟩
  refine Checked.foldlM_keeps (fun active : Option ℕ => ∀ id, active = some id →
    ∃ window, s.windows[id]? = some window ∧ window.status = .opened) h.active ?_ hloop
  rintro ⟨window, i⟩ hmem active active' hopened hstep
  have hwindow : s.windows[i]? = some window := List.mk_mem_zipIdx_iff_getElem?.mp hmem
  obtain ⟨clicked, hclicked, hstep⟩ := Checked.bind_eq_ok.mp hstep
  cases clicked with
  | true =>
      cases hstep
      intro id hid
      cases hid
      exact ⟨window, hwindow, isClicked_opened hclicked⟩
  | false =>
      cases hstep
      exact hopened

lemma observeMouse_goes (hmouse : s.observeMouse event = .ok s') : Goes s s' ∧ s'.typed = s.typed := by
  rw [Server.observeMouse] at hmouse
  split_ifs at hmouse
  · exact click_goes hmouse
  all_goals first
    | cases hmouse
      exact SameKeys.goes ⟨rfl, rfl, rfl⟩
    | obtain ⟨_, -, hmouse⟩ := Checked.bind_eq_ok.mp hmouse
      cases hmouse
      exact SameKeys.goes ⟨rfl, rfl, rfl⟩

/-- What is said about `x` is only said if it returns. -/
lemma meets_of_ok {α : Type} {x : Checked α} {P : α → Prop} (h : ∀ a, x = .ok a → P a) :
    Meets x (fun _ => True) P := ⟨fun _ _ => trivial, h⟩

lemma events_goes {sender : ProcessId} : (s.events env id sender).Ensures (fun _ => True)
    fun left _ => Goes s left.1 ∧ left.1.typed = s.typed := by
  rw [Server.events]
  simp only [ensures_bind, ensures_liftM]
  refine meets_of_ok fun memory _ => ?_
  split
  · trivial
  · next window hwindow =>
      simp only [ensures_bind, ensures_forwardTo, ensures_pure]
      have hsame : window.Same { window with eventRing := some ⟨s.typed.length, []⟩ } :=
        ⟨rfl, rfl, rfl, rfl, rfl, rfl, fun hclosed => hclosed⟩
      refine fun cap => ⟨fun h => ⟨⟨?_, h.renew hwindow⟩, .set hwindow hsame rfl rfl⟩, trivial⟩
      have hopened := h.opened hwindow
      exact h.setActive hwindow hopened

/-- Calls type nothing. -/
lemma callMethod_goes {method : ℕ} {args : List UInt8} {sender : ProcessId} :
    (callMethod env codec s method args object sender).Ensures (fun _ => True)
      fun left _ => Goes s left.1 ∧ left.1.typed = s.typed := by
  cases object with
  | server =>
      show (callServer env codec s method args).Ensures _ _
      unfold callServer
      split
      · simp only [Server.createWindow, ensures_bind, ensures_liftM, ensures_grantObject, ensures_pure]
        refine meets_of_ok fun size _ => meets_of_ok fun allocated _ => meets_of_ok fun x _ =>
          meets_of_ok fun y _ cap => meets_of_ok fun result _ => ⟨fun h => ?_, trivial⟩
        exact h.create rfl rfl ⟨rfl, rfl, rfl⟩
      · trivial
  | window id =>
      show (callWindow env codec s method id sender).Ensures _ _
      unfold callWindow
      split
      · rw [Server.framebuffer]
        split
        · trivial
        · simp only [ensures_bind, ensures_forwardTo, ensures_pure, ensures_liftM]
          exact fun cap => meets_of_ok fun result _ => ⟨.refl, trivial⟩
      · simp only [ensures_bind, ensures_liftM, ensures_pure]
        exact meets_of_ok fun s' hdraw => (draw_sameKeys hdraw).goes
      · simp only [ensures_bind, ensures_liftM, ensures_pure]
        exact events_goes.mono (fun _ he => he) fun left _ hgoes => meets_of_ok fun result _ => hgoes
      · trivial
  | keyboard => trivial
  | mouse => trivial

lemma handleShortcut_goes : (s.handleShortcut env event).Ensures (fun _ => True)
    fun s' _ => Goes s s' ∧ s'.typed = s.typed := by
  have hsame : ∀ shortcut, Goes s { s with globalShortcut := shortcut } ∧ s.typed = s.typed :=
    fun shortcut => SameKeys.goes ⟨rfl, rfl, rfl⟩
  rw [Server.handleShortcut]
  split
  · cases s.globalShortcut with
    | notStarted =>
        dsimp only
        split
        · exact hsame .alt
        · exact ⟨.refl, rfl⟩
    | alt =>
        dsimp only
        split_ifs
        · trivial
        · simp only [Server.openTerminal, ensures_bind, ensures_grantObject, ensures_forwardTo,
            ensures_pure]
          intro windowing term fs imageViewer windowing' net shutdown
          exact ⟨fun h => h.activate (fun _ hnone => by cases hnone) ⟨rfl, rfl, rfl⟩, trivial⟩
        · rw [ensures_liftM]
          exact meets_of_ok fun s' hclose => closeActive_goes hclose
        · exact hsame .notStarted
        · exact hsame .notStarted
        · exact ⟨.refl, rfl⟩
  · exact ⟨.refl, rfl⟩

/-- What is observed of the keyboard is typed, and nothing else is. -/
lemma observe_goes : (observe env s event object).Ensures (fun _ => True)
    fun s' _ => Goes s s' ∧ s'.typed.map Prod.fst = s.typed.map Prod.fst ++ keyPolled object event := by
  cases object with
  | keyboard =>
      show (s.observeKeyboard env event).Ensures _ _
      simp only [Server.observeKeyboard, ensures_bind, ensures_liftM]
      refine handleShortcut_goes.mono (fun _ he => he) ?_
      rintro s₁ _ ⟨hgoes, htyped⟩
      refine meets_of_ok fun s₂ hpass => ⟨hgoes.trans (passOn_goes hpass), ?_⟩
      simp [passOn_typed hpass, htyped, keyPolled]
  | mouse =>
      show (liftM (s.observeMouse event) : Behaviour Object Server).Ensures _ _
      rw [ensures_liftM]
      refine meets_of_ok fun s' hmouse => ?_
      obtain ⟨hgoes, htyped⟩ := observeMouse_goes hmouse
      exact ⟨hgoes, by simp [htyped, keyPolled]⟩
  | server => exact ⟨.refl, by simp [keyPolled]⟩
  | window id => exact ⟨.refl, by simp [keyPolled]⟩

lemma moves_goes (env : Surroundings) (codec : Codec) : Dispatch.Moves (impl env codec) Goes where
  refl _ := .refl
  trans := .trans
  call _ _ _ _ _ := callMethod_goes.mono (fun _ he => he) fun _ _ hleft => hleft.1
  observe _ _ _ := observe_goes.mono (fun _ he => he) fun _ _ hleft => hleft.1

/-- What is typed is what the keyboard polls. -/
lemma records_typed (env : Surroundings) (codec : Codec) :
    Dispatch.Records (impl env codec) (fun _ _ => []) keyPolled fun s => s.typed.map Prod.fst where
  call _ _ _ _ _ :=
    callMethod_goes.mono (fun _ he => he) fun left _ hleft => by rw [hleft.2, List.append_nil]
  observe _ _ _ := observe_goes.mono (fun _ he => he) fun _ _ hleft => hleft.2

lemma initial_typing {absXInfo absYInfo : InputAbsinfo} :
    Typing (initial shown fs imageViewer net shutdown absXInfo absYInfo) where
  active := fun _ hactive => by cases hactive
  rings := fun _ _ _ hwindow => by cases hwindow

/-- **No event of the keyboard is lost, and none is passed on twice.**  What is typed is what the keyboard
polls, in order; the ring of a window has what was typed while the window was active, from when the ring
was made; and a window that was closed gets nothing more.

This is so after each run that has not panicked, and nothing is assumed about it: the display and the
windows can have any size, the messages any bytes, and the mouse can report anything. -/
theorem run_delivers {absXInfo absYInfo : InputAbsinfo}
    (hrun : (start (initial shown fs imageViewer net shutdown absXInfo absYInfo) exported).run
      (impl env codec) pid events = .ok d) :
    d.server.typed.map Prod.fst = events.flatMap keysOf ∧
    (∀ (id : ℕ) window ring, d.server.windows[id]? = some window → window.eventRing = some ring →
      ring.UpToDate id d.server.typed) ∧
    ∀ events' d', d.run (impl env codec) pid events' = .ok d' →
      ∃ added, d'.server.typed = d.server.typed ++ added ∧
        added.map Prod.fst = events'.flatMap keysOf ∧
        ∀ (id : ℕ) window, d.server.windows[id]? = some window → window.status = .closed →
          eventsFor id added = [] := by
  obtain ⟨htyping, -⟩ := (moves_goes env codec).run hrun initial_typing
  obtain ⟨htyped, hobservers⟩ := (records_typed env codec).run hrun
  have hpolled : ∀ events : List (Dispatch.Event InputEvent),
      events.flatMap (Dispatch.recordOf (fun _ _ => []) keyPolled [Object.keyboard, .mouse]) =
        events.flatMap keysOf := fun events =>
    congrArg (fun f => events.flatMap f) (funext recordOf_keyPolled)
  refine ⟨?_, htyping.rings, fun events' d' hrun' => ?_⟩
  · rw [htyped]
    exact hpolled events
  · obtain ⟨-, hlater⟩ := (moves_goes env codec).run hrun' htyping
    obtain ⟨htyped', -⟩ := (records_typed env codec).run hrun'
    obtain ⟨added, happend, hclosed⟩ := hlater.typed
    refine ⟨added, happend, ?_, hclosed⟩
    rw [happend, List.map_append, hobservers] at htyped'
    exact (List.append_cancel_left htyped').trans (hpolled events')

/-- The key has come to the window. -/
theorem run_delivers_small : ∃ (pid client : ProcessId) (d : Dispatch Server Object),
    (start smallServer (.granted .kernel)).run (impl quietSurroundings pixelCodec) pid
      (openAndType pid client) = .ok d ∧
    d.server.typed.map Prod.fst = [pressA] ∧
    ∃ window ring, d.server.windows[0]? = some window ∧ window.eventRing = some ring ∧
      ring.UpToDate 0 d.server.typed := by
  let setup : Setup :=
    ⟨4, 3, ⟨0, 1⟩, ⟨0, 1⟩, by decide, by decide, by decide, by decide, by decide⟩
  obtain ⟨pid, client, d, hrun, ⟨window, hwindow, hring⟩, -⟩ := run_openAndType setup
  obtain ⟨htyped, hrings, -⟩ := run_delivers hrun
  exact ⟨pid, client, d, hrun, htyped, window, _, hwindow, hring, hrings 0 window _ hwindow hring⟩

end Windowing

end Deravel
