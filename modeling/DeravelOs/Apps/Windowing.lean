import DeravelOs.Apps.Filling
import DeravelOs.Server.Contracts
import DeravelOs.Types.Input

/-!
# The windowing server

`apps/src/bin/windowing.rs`.  Clients create windows and draw in memory that they share with the server;
the server copies them to the display.  It observes a keyboard and a mouse, and passes the events of the
keyboard on to the window that is active.

* `Surroundings`: what is up to others, like the pixels that a client has drawn.
* `Server.createWindow`, `Server.framebuffer`, `Server.draw`, `Server.events`: what clients call.
* `Server.observeKeyboard`, `Server.observeMouse`: the two observers.
* `impl`: all of this in the loop of a server.
-/

namespace Deravel

/-- `Framebuffer::alloc`.  No slice is larger than an `isize`. -/
def Framebuffer.alloc (allocShared : ℕ → Checked RawCapability) (width height : ℕ)
    (hwidth : width < usizeRange) (hheight : height < usizeRange) :
    Checked (Framebuffer × RawCapability) := do
  let row ← uintMul 64 .framebufferAlloc 4 width
  let size ← uintMul 64 .framebufferAlloc row height
  let cap ← allocShared size
  if hsize : 4 * (width * height) < 2 ^ 63 then
    pure ({
      ptr := List.replicate (width * height) 0
      width := width
      height := height
      width_lt := hwidth
      height_lt := hheight
      fits := List.length_replicate.ge
      ptr_lt := by rwa [List.length_replicate] }, cap)
  else throw .outOfMemory

namespace Windowing

/-! ## The server -/

/-- `Shortcut` -/
inductive Shortcut
  | notStarted
  | alt
  deriving DecidableEq, Repr

/-- `WindowStatus` -/
inductive WindowStatus
  | opened
  | closed
  deriving DecidableEq, Repr

/-- A ring of events: what has been pushed to it, and how many events had been typed when it was
made. -/
structure EventRing where
  start : ℕ
  events : List InputEvent

/-- `WindowData` -/
structure WindowData where
  x : ℤ
  y : ℤ
  width : ℕ
  height : ℕ
  status : WindowStatus
  framebuffer : Framebuffer
  memory : RawCapability
  eventRing : Option EventRing

/-- What the server asks of others, for the record. -/
inductive Request
  | draw
  | updateCursor (x y : ℕ)
  | spawnTerminal (windowing : RawCapability)
  | spawnShell (console fs imageViewer windowing net shutdown : RawCapability)

/-- `Server`, with the events that were typed and the window that was active then, and with the number
of times that the server has depended on its surroundings. -/
structure Server where
  displayWidth : ℕ
  displayHeight : ℕ
  displayFramebuffer : Framebuffer
  windows : List WindowData
  activeWindow : Option ℕ
  cursorX : ℤ
  cursorY : ℤ
  fs : RawCapability
  imageViewer : RawCapability
  net : RawCapability
  shutdown : RawCapability
  globalShortcut : Shortcut
  absXInfo : InputAbsinfo
  absYInfo : InputAbsinfo
  typed : List (InputEvent × Option ℕ)
  requests : List Request
  clock : ℕ

/-- What is up to others: the pixels that a client has drawn, whether there is room in a ring, whether
there is memory, and which capabilities are returned. -/
structure Surroundings where
  pixels : ℕ → ℕ → BitVec 32
  push : ℕ → Checked Unit
  allocShared : ℕ → ℕ → Checked RawCapability
  spawn : ℕ → RawCapability

/-- The objects of the server, and what it observes. -/
inductive Object
  | server
  | window (id : ℕ)
  | keyboard
  | mouse
  deriving DecidableEq, Repr

/-- What `postcard` makes of arguments and results. -/
structure Codec where
  size : List UInt8 → Option (UInt32 × UInt32)
  capability : RawCapability → Option (List UInt8)
  stream : RawCapability → ℕ → Option (List UInt8)

open Behaviour

variable (env : Surroundings)

namespace Server

/-! ## Windows -/

/-- The framebuffer of a window, with what has been drawn in it. -/
def shown (window : WindowData) (pixels : ℕ → BitVec 32) : Framebuffer :=
  window.framebuffer.overwrite 0 ((List.range window.framebuffer.ptr.length).map pixels)

/-- `draw_window` -/
def drawWindow (self : Server) (windowId : ℕ) : Checked Server :=
  match self.windows[windowId]? with
  | none => throw (.indexOutOfBounds .drawWindow)
  | some window => do
      let framebuffer ← self.displayFramebuffer.copyFromRect window.x window.y
        (shown window (env.pixels self.clock))
      pure { self with displayFramebuffer := framebuffer, clock := self.clock + 1 }

/-- `create_window` -/
def createWindow (self : Server) (width height : UInt32) :
    Behaviour Object (Server × RawCapability) := do
  let windowId := self.windows.length
  let (framebuffer, memory) ← liftM (Framebuffer.alloc (env.allocShared self.clock) width.toNat
    height.toNat (width.toNat_lt.trans (by decide)) (height.toNat_lt.trans (by decide)))
  let x ← liftM (i32Sub .createWindow self.cursorX ((asI32 width.toNat).tdiv 2))
  let y ← liftM (i32Sub .createWindow self.cursorY ((asI32 height.toNat).tdiv 2))
  let window : WindowData := {
    x := x
    y := y
    width := width.toNat
    height := height.toNat
    status := .opened
    framebuffer := framebuffer
    memory := memory
    eventRing := none }
  let cap ← grantObject (.window windowId)
  pure ({ self with
    windows := self.windows ++ [window]
    activeWindow := some windowId
    clock := self.clock + 1 }, cap)

/-- `framebuffer` -/
def framebuffer (self : Server) (windowId : ℕ) (sender : ProcessId) :
    Behaviour Object (Server × RawCapability) :=
  match self.windows[windowId]? with
  | none => .panic (.indexOutOfBounds .drawWindow)
  | some window => do
      let cap ← forwardTo window.memory (.userspace sender)
      pure (self, cap)

/-- The active window, which is drawn over the other one. -/
def drawActive (self : Server) (windowId : ℕ) : Checked Server :=
  match self.activeWindow with
  | none => pure self
  | some active => if active ≠ windowId then self.drawWindow env active else pure self

/-- `draw` -/
def draw (self : Server) (windowId : ℕ) : Checked Server := do
  let self ← self.drawWindow env windowId
  let self ← self.drawActive env windowId
  pure { self with requests := self.requests ++ [.draw] }

/-- The number of bytes of the elements of a ring that has a page, which have 8 bytes each. -/
def ringBytes : ℕ := (pageSize - 2 * cacheLineSize) / 8 * 8

/-- `events`.  The ring is made anew by each call. -/
def events (self : Server) (windowId : ℕ) (sender : ProcessId) :
    Behaviour Object (Server × RawCapability × ℕ) := do
  let memory ← liftM (env.allocShared self.clock pageSize)
  match self.windows[windowId]? with
  | none => .panic (.indexOutOfBounds .windowEvents)
  | some window => do
      let cap ← forwardTo memory (.userspace sender)
      pure ({ self with
        windows := self.windows.set windowId { window with
          eventRing := some ⟨self.typed.length, []⟩ }
        clock := self.clock + 1 }, cap, ringBytes)

/-! ## The keyboard -/

/-- What Alt and Q do. -/
def closeActive (self : Server) : Checked Server :=
  match self.activeWindow with
  | none => pure self
  | some windowId =>
      match self.windows[windowId]? with
      | none => throw (.indexOutOfBounds .observeKeyboard)
      | some window => do
          let right ← i32Add .observeKeyboard window.x (asI32 window.width)
          let bottom ← i32Add .observeKeyboard window.y (asI32 window.height)
          let framebuffer ← self.displayFramebuffer.fillRect
            (asUsize (min (max window.x 0) (asI32 self.displayWidth)))
            (asUsize (min (max window.y 0) (asI32 self.displayHeight)))
            (asUsize (min (max right 0) (asI32 self.displayWidth)))
            (asUsize (min (max bottom 0) (asI32 self.displayHeight))) 191 215 234 255
          pure { self with
            displayFramebuffer := framebuffer
            windows := self.windows.set windowId { window with status := .closed }
            activeWindow := none
            requests := self.requests ++ [.draw] }

/-- What Alt and T do: a terminal, and a shell that it is the console of. -/
def openTerminal (self : Server) : Behaviour Object Server := do
  let windowing ← grantObject .server
  let term := env.spawn self.clock
  let term ← forwardTo term .kernel
  let fs ← forwardTo self.fs .kernel
  let imageViewer ← forwardTo self.imageViewer .kernel
  let windowing' ← grantObject .server
  let net ← forwardTo self.net .kernel
  let shutdown ← forwardTo self.shutdown .kernel
  pure { self with
    activeWindow := none
    globalShortcut := .notStarted
    requests := self.requests ++
      [.spawnTerminal windowing, .spawnShell term fs imageViewer windowing' net shutdown]
    clock := self.clock + 1 }

/-- The shortcuts. -/
def handleShortcut (self : Server) (event : InputEvent) : Behaviour Object Server :=
  if event.type = evKey then
    match self.globalShortcut with
    | .notStarted =>
        if event.code = keyLeftalt ∧ event.value = 1 then pure { self with globalShortcut := .alt }
        else pure self
    | .alt =>
        if event.code = keyEsc ∧ event.value = 1 then .panic .shutdown
        else if event.code = keyT ∧ event.value = 1 then self.openTerminal env
        else if event.code = keyQ ∧ event.value = 1 then liftM self.closeActive
        else if event.code = keyLeftalt ∧ event.value = 0 then
          pure { self with globalShortcut := .notStarted }
        else if event.value = 1 then pure { self with globalShortcut := .notStarted }
        else pure self
  else pure self

/-- The event is passed on to the active window. -/
def passOn (self : Server) (event : InputEvent) : Checked Server :=
  let self := { self with typed := self.typed ++ [(event, self.activeWindow)] }
  match self.activeWindow with
  | none => pure self
  | some windowId =>
      match self.windows[windowId]? with
      | none => throw (.indexOutOfBounds .observeKeyboard)
      | some window =>
          match window.eventRing with
          | none => pure self
          | some ring => do
              env.push self.clock
              pure { self with
                windows := self.windows.set windowId { window with
                  eventRing := some { ring with events := ring.events ++ [event] } }
                clock := self.clock + 1 }

/-- `observe` of the keyboard -/
def observeKeyboard (self : Server) (event : InputEvent) : Behaviour Object Server := do
  let self ← self.handleShortcut env event
  liftM (self.passOn env event)

/-! ## The mouse -/

/-- The condition for a window to become active. -/
def isClicked (self : Server) (window : WindowData) : Checked Bool :=
  if self.cursorX < window.x then pure false
  else do
    let right ← i32Add .observeMouse window.x (asI32 window.width)
    if right ≤ self.cursorX ∨ self.cursorY < window.y then pure false
    else do
      let bottom ← i32Add .observeMouse window.y (asI32 window.height)
      pure (decide (self.cursorY < bottom ∧ window.status = .opened))

/-- A click: the last window that is under the cursor becomes active. -/
def click (self : Server) : Checked Server := do
  let activeWindow ← self.windows.zipIdx.foldlM (fun activeWindow (window, windowIndex) => do
    if ← self.isClicked window then pure (some windowIndex) else pure activeWindow) self.activeWindow
  pure { self with activeWindow := activeWindow }

/-- `from_abs` -/
def fromAbs (value : UInt32) (info : InputAbsinfo) (res : ℕ) : Checked ℤ := do
  let offset ← uintSub .fromAbs value.toNat info.min.toNat
  let scaled ← uintMul 64 .fromAbs offset res
  let range ← uintSub .fromAbs info.max.toNat info.min.toNat
  -- a division by zero
  ensure (range ≠ 0) (.explicit .fromAbs)
  pure (asI32 (scaled / range))

/-- `observe` of the mouse -/
def observeMouse (self : Server) (event : InputEvent) : Checked Server :=
  if event.type = evKey then
    if event.code = btnLeft ∧ event.value = 1 then self.click else pure self
  else if event.type = evRel then
    if event.code = relX then do
      let x ← i32Add .observeMouse self.cursorX (asI32 event.value.toNat)
      pure { self with cursorX := min (max x 0) (asI32 self.displayWidth) }
    else if event.code = relY then do
      let y ← i32Add .observeMouse self.cursorY (asI32 event.value.toNat)
      pure { self with cursorY := min (max y 0) (asI32 self.displayHeight) }
    else pure self
  else if event.type = evAbs then
    if event.code = absX then do
      let x ← fromAbs event.value self.absXInfo self.displayWidth
      pure { self with cursorX := x }
    else if event.code = absY then do
      let y ← fromAbs event.value self.absYInfo self.displayHeight
      pure { self with cursorY := y }
    else pure self
  else if event.type = evSyn then
    pure { self with
      requests := self.requests ++ [.updateCursor (asU32 self.cursorX) (asU32 self.cursorY)] }
  else pure self

end Server

/-! ## The loop -/

/-- `initialize_cursor`, on a framebuffer of 64 × 64 pixels. -/
def initializeCursor (image : Framebuffer) : Checked Framebuffer :=
  image.fillRect 0 0 16 16 255 255 255 255

/-- The server that `main` makes, before its loop. -/
def initial (display : Framebuffer) (fs imageViewer net shutdown : RawCapability)
    (absXInfo absYInfo : InputAbsinfo) : Server where
  displayWidth := display.width
  displayHeight := display.height
  displayFramebuffer := display.fill 191 215 234 255
  windows := []
  activeWindow := none
  cursorX := (asI32 display.width).tdiv 2
  cursorY := (asI32 display.height).tdiv 2
  fs := fs
  imageViewer := imageViewer
  net := net
  shutdown := shutdown
  globalShortcut := .notStarted
  absXInfo := absXInfo
  absYInfo := absYInfo
  typed := []
  requests := [.draw]
  clock := 0

/-- `main`, up to its loop: the server, and the image of the cursor. -/
def main (display image : Framebuffer) (fs imageViewer net shutdown : RawCapability)
    (absXInfo absYInfo : InputAbsinfo) : Checked (Server × Framebuffer) := do
  let image ← initializeCursor image
  pure (initial display fs imageViewer net shutdown absXInfo absYInfo, image)

/-- `call_method` of the windowing server -/
def callServer (codec : Codec) (self : Server) (method : ℕ) (args : List UInt8) :
    Behaviour Object (Server × List UInt8) :=
  match method with
  | 0 => do
      let (width, height) ← liftM (fromPostcard (codec.size args))
      let (self, cap) ← self.createWindow env width height
      let result ← liftM (fromPostcard (codec.capability cap))
      pure (self, result)
  | _ => .panic (.unreachable .unknownMethod)

/-- `call_method` of a window.  The stream is a method from 1000 on. -/
def callWindow (codec : Codec) (self : Server) (method windowId : ℕ) (sender : ProcessId) :
    Behaviour Object (Server × List UInt8) :=
  match method with
  | 0 => do
      let (self, cap) ← self.framebuffer windowId sender
      let result ← liftM (fromPostcard (codec.capability cap))
      pure (self, result)
  | 1 => do
      let self ← liftM (self.draw env windowId)
      pure (self, [])
  | 1000 => do
      let (self, cap, size) ← self.events env windowId sender
      let result ← liftM (fromPostcard (codec.stream cap size))
      pure (self, result)
  | _ => .panic (.unreachable .unknownMethod)

/-- `call_method`, of the handler of an object. -/
def callMethod (codec : Codec) (self : Server) (method : ℕ) (args : List UInt8) (object : Object)
    (sender : ProcessId) : Behaviour Object (Server × List UInt8) :=
  match object with
  | .server => callServer env codec self method args
  | .window windowId => callWindow env codec self method windowId sender
  | _ => .panic (.unreachable .unknownMethod)

/-- `observe`, of the keyboard or of the mouse. -/
def observe (self : Server) (event : InputEvent) : Object → Behaviour Object Server
  | .keyboard => self.observeKeyboard env event
  | .mouse => liftM (self.observeMouse event)
  | _ => pure self

/-- The server in its loop. -/
def impl (codec : Codec) : ServerImpl Server Object InputEvent where
  callMethod := callMethod env codec
  observe := observe env

end Windowing

end Deravel
