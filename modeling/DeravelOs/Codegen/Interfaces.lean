import DeravelOs.Codegen.Print
import DeravelOs.Codegen.Syscalls

/-!
# The description of this system

`interfaces.drvli`, from which both build scripts generate.  What comes of it on the side of the kernel
is the dispatcher that `Kernel.dispatchSyscall` was read off from.

* `interfacesDrvli`, `definitions`: the file and its items.
* `parseDrvli_interfacesDrvli`: what the build scripts read.
* `dispatchSyscall_interfacesDrvli`: the dispatcher that is generated is the one of the kernel.
-/

namespace Deravel

namespace Codegen

/-! ## The file -/

/-- The lines of `interfaces.drvli`. -/
def interfacesLines : List String :=
  ["app shell(console console, fs filesystem, " ++
      "image_viewer process_spawner image_viewer, windowing windowing, net network, " ++
      "shutdown shutdown)",
    "",
    "app fat_fs(drive drive) implements filesystem",
    "",
    "app windowing(display display, keyboard input_device, mouse input_device, " ++
      "fs filesystem, image_viewer process_spawner image_viewer, net network, " ++
      "shutdown shutdown, terminal process_spawner terminal, " ++
      "shell process_spawner shell)",
    "    func create_window(width u32, height u32) window",
    "",
    "app terminal(windowing windowing) implements console",
    "",
    "app image_viewer(image shared_memory, windowing windowing)",
    "",
    "interface filesystem",
    "    func read(path text) bytes",
    "    func read_large(path text) shared_memory",
    "    func write(path text, data bytes)",
    "    func subcapability(path text) filesystem",
    "",
    "interface drive",
    "    func read(sector u64) bytes",
    "    func read_mapped(first_sector u64, sector_count u64) shared_memory",
    "    func write(sector u64, data bytes)",
    "    func capacity() u64",
    "",
    "interface console",
    "    func getchar() u8",
    "    func putchar(c u8)",
    "",
    "interface display",
    "    func width() u32",
    "    func height() u32",
    "    func framebuffer() shared_memory",
    "    func draw()",
    "    func cursor_image_buffer() shared_memory",
    "    func cursor_image_modified()",
    "    func update_cursor(x u32, y u32)",
    "",
    "struct input_event",
    "    type u16",
    "    code u16",
    "    value u32",
    "",
    "struct input_absinfo",
    "    min u32",
    "    max u32",
    "    fuzz u32",
    "    flat u32",
    "    res u32",
    "",
    "interface input_device",
    "    func absinfo(axis u16) input_absinfo",
    "    stream events input_event",
    "",
    "interface window",
    "    func framebuffer() shared_memory",
    "    func draw()",
    "    stream events input_event",
    "",
    "interface network",
    "    func dns(domain text) text",
    "",
    "interface shutdown",
    "    func shutdown() never",
    "",
    "syscall exit() never",
    "",
    "syscall ipc_call(cap capability, method usize, args const_array u8, " ++
      "result array u8) usize",
    "",
    "syscall ipc_receive(args array u8) option capability, usize, usize, option pid",
    "",
    "syscall ipc_reply(result const_array u8)",
    "",
    "syscall ipc_stream(cap capability, stream_ usize) ptr, usize",
    "",
    "syscall alloc(size usize) ptr u8",
    "",
    "syscall alloc_shared(size usize) ptr u8, shared_memory",
    "",
    "syscall map_shared(cap shared_memory) ptr u8, usize",
    "",
    "syscall free(p ptr u8)",
    "",
    "syscall yield()",
    "",
    "syscall log(message const_array u8, level u64)"]

/-- `interfaces.drvli` -/
def interfacesDrvli : List Char := Text.unlines (interfacesLines.map String.toList)

/-- The items of the file, in its order. -/
def definitions : List Definition :=
  [.interface
      ⟨"shell".toList, [], [], .app
        [("console".toList, .typedCapability "console".toList),
          ("fs".toList, .typedCapability "filesystem".toList),
          ("image_viewer".toList, .processSpawner "image_viewer".toList),
          ("windowing".toList, .typedCapability "windowing".toList),
          ("net".toList, .typedCapability "network".toList),
          ("shutdown".toList, .typedCapability "shutdown".toList)] none⟩,
    .interface
      ⟨"fat_fs".toList, [], [],
        .app [("drive".toList, .typedCapability "drive".toList)] (some "filesystem".toList)⟩,
    .interface
      ⟨"windowing".toList,
        [⟨"create_window".toList, [("width".toList, .u32), ("height".toList, .u32)],
          some (.typedCapability "window".toList)⟩], [], .app
        [("display".toList, .typedCapability "display".toList),
          ("keyboard".toList, .typedCapability "input_device".toList),
          ("mouse".toList, .typedCapability "input_device".toList),
          ("fs".toList, .typedCapability "filesystem".toList),
          ("image_viewer".toList, .processSpawner "image_viewer".toList),
          ("net".toList, .typedCapability "network".toList),
          ("shutdown".toList, .typedCapability "shutdown".toList),
          ("terminal".toList, .processSpawner "terminal".toList),
          ("shell".toList, .processSpawner "shell".toList)] none⟩,
    .interface
      ⟨"terminal".toList, [], [], .app
        [("windowing".toList, .typedCapability "windowing".toList)] (some "console".toList)⟩,
    .interface
      ⟨"image_viewer".toList, [], [], .app
        [("image".toList, .sharedMemory),
          ("windowing".toList, .typedCapability "windowing".toList)] none⟩,
    .interface
      ⟨"filesystem".toList,
        [⟨"read".toList, [("path".toList, .text)], some .bytes⟩,
          ⟨"read_large".toList, [("path".toList, .text)], some .sharedMemory⟩,
          ⟨"write".toList, [("path".toList, .text), ("data".toList, .bytes)], none⟩,
          ⟨"subcapability".toList, [("path".toList, .text)],
            some (.typedCapability "filesystem".toList)⟩], [], .interface⟩,
    .interface
      ⟨"drive".toList,
        [⟨"read".toList, [("sector".toList, .u64)], some .bytes⟩,
          ⟨"read_mapped".toList, [("first_sector".toList, .u64), ("sector_count".toList, .u64)],
            some .sharedMemory⟩,
          ⟨"write".toList, [("sector".toList, .u64), ("data".toList, .bytes)], none⟩,
          ⟨"capacity".toList, [], some .u64⟩], [], .interface⟩,
    .interface
      ⟨"console".toList,
        [⟨"getchar".toList, [], some .u8⟩, ⟨"putchar".toList, [("c".toList, .u8)], none⟩], [],
        .interface⟩,
    .interface
      ⟨"display".toList,
        [⟨"width".toList, [], some .u32⟩, ⟨"height".toList, [], some .u32⟩,
          ⟨"framebuffer".toList, [], some .sharedMemory⟩, ⟨"draw".toList, [], none⟩,
          ⟨"cursor_image_buffer".toList, [], some .sharedMemory⟩,
          ⟨"cursor_image_modified".toList, [], none⟩,
          ⟨"update_cursor".toList, [("x".toList, .u32), ("y".toList, .u32)], none⟩], [],
        .interface⟩,
    .struct
      ⟨"input_event".toList,
        [("type".toList, .u16), ("code".toList, .u16), ("value".toList, .u32)]⟩,
    .struct
      ⟨"input_absinfo".toList,
        [("min".toList, .u32), ("max".toList, .u32), ("fuzz".toList, .u32), ("flat".toList, .u32),
          ("res".toList, .u32)]⟩,
    .interface
      ⟨"input_device".toList,
        [⟨"absinfo".toList, [("axis".toList, .u16)], some (.struct "input_absinfo".toList)⟩],
        [⟨"events".toList, .struct "input_event".toList⟩], .interface⟩,
    .interface
      ⟨"window".toList,
        [⟨"framebuffer".toList, [], some .sharedMemory⟩, ⟨"draw".toList, [], none⟩],
        [⟨"events".toList, .struct "input_event".toList⟩], .interface⟩,
    .interface
      ⟨"network".toList, [⟨"dns".toList, [("domain".toList, .text)], some .text⟩], [], .interface⟩,
    .interface
      ⟨"shutdown".toList, [⟨"shutdown".toList, [], some .never⟩], [], .interface⟩,
    .syscall ⟨"exit".toList, [], some .never⟩,
    .syscall
      ⟨"ipc_call".toList,
        [("cap".toList, .untypedCapability), ("method".toList, .usize),
          ("args".toList, .constArray .u8), ("result".toList, .array .u8)], some .usize⟩,
    .syscall
      ⟨"ipc_receive".toList, [("args".toList, .array .u8)],
        some (.tuple [.option .untypedCapability, .usize, .usize, .option .processId])⟩,
    .syscall ⟨"ipc_reply".toList, [("result".toList, .constArray .u8)], none⟩,
    .syscall
      ⟨"ipc_stream".toList, [("cap".toList, .untypedCapability), ("stream_".toList, .usize)],
        some (.tuple [.untypedPointer, .usize])⟩,
    .syscall ⟨"alloc".toList, [("size".toList, .usize)], some (.ptr .u8)⟩,
    .syscall
      ⟨"alloc_shared".toList, [("size".toList, .usize)], some (.tuple [.ptr .u8, .sharedMemory])⟩,
    .syscall
      ⟨"map_shared".toList, [("cap".toList, .sharedMemory)], some (.tuple [.ptr .u8, .usize])⟩,
    .syscall ⟨"free".toList, [("p".toList, .ptr .u8)], none⟩,
    .syscall ⟨"yield".toList, [], none⟩,
    .syscall
      ⟨"log".toList, [("message".toList, .constArray .u8), ("level".toList, .u64)], none⟩]

/-- The items, each with a blank line behind it but the last. -/
def interfacesLayout : List (Definition × ℕ) :=
  definitions.zip (List.replicate (definitions.length - 1) 1 ++ [0])

/-- What the build scripts work with. -/
def interfaces : Drvli := Drvli.ofDefinitions definitions

set_option maxRecDepth 20000 in
lemma printDrvli_interfacesLayout : printDrvli interfacesLayout = interfacesDrvli := by
  have hlines : (layoutLines (interfacesLayout.map fun p => (p.1.item, p.2))).map String.ofList =
      interfacesLines := by rfl
  rw [interfacesDrvli, ← hlines, List.map_map]
  simp only [Function.comp_def, String.toList_ofList, List.map_id']
  rfl

/-- The file is read as its items say. -/
lemma parseDrvli_interfacesDrvli : parseDrvli interfacesDrvli = .ok interfaces := by
  have hwell : WellFormed (interfacesLayout.map Prod.fst) := by decide +kernel
  have hspaced : Spaced (interfacesLayout.map fun p => (p.1.item, p.2)) := by decide +kernel
  rw [← printDrvli_interfacesLayout]
  exact (parseDrvli_eq_iff (lines_printDrvli hwell) (meaning_layout hwell)).mpr hspaced

/-! ## The dispatcher -/

/-- The arms for the system calls of the file. -/
def interfacesArms : List DispatchArm :=
  [⟨0, "exit".toList, [], .nothing⟩,
    ⟨1, "ipc_call".toList, [.capability 0, .usize 1, .slice 2 3, .slice 4 5], .whole⟩,
    ⟨2, "ipc_receive".toList, [.slice 0 1], .components [0, 1, 2, 3]⟩,
    ⟨3, "ipc_reply".toList, [.slice 0 1], .nothing⟩,
    ⟨4, "ipc_stream".toList, [.capability 0, .usize 1], .components [0, 1]⟩,
    ⟨5, "alloc".toList, [.usize 0], .whole⟩,
    ⟨6, "alloc_shared".toList, [.usize 0], .components [0, 1]⟩,
    ⟨7, "map_shared".toList, [.sharedMemory 0], .components [0, 1]⟩,
    ⟨8, "free".toList, [.pointer 0], .nothing⟩,
    ⟨9, "yield_".toList, [], .nothing⟩,
    ⟨10, "log".toList, [.slice 0 1, .u64 2], .nothing⟩]

lemma dispatchArms_interfaces : dispatchArms interfaces = .ok interfacesArms := rfl

/-- `impl SyscallHandler for ()`: the methods, by their names. -/
def syscallHandlers : List (List Char × (List ArgWord → Option Deravel.Syscall)) :=
  [("exit".toList, fun
      | [] => some .exit
      | _ => none),
    ("ipc_call".toList, fun
      | [.capability cap, .word method, .slice args, .slice result] =>
          some (.ipcCall cap method args result)
      | _ => none),
    ("ipc_receive".toList, fun
      | [.slice args] => some (.ipcReceive args)
      | _ => none),
    ("ipc_reply".toList, fun
      | [.slice result] => some (.ipcReply result)
      | _ => none),
    ("ipc_stream".toList, fun
      | [.capability cap, .word stream] => some (.ipcStream cap stream)
      | _ => none),
    ("alloc".toList, fun
      | [.word size] => some (.alloc size)
      | _ => none),
    ("alloc_shared".toList, fun
      | [.word size] => some (.allocShared size)
      | _ => none),
    ("map_shared".toList, fun
      | [.capability cap] => some (.mapShared cap)
      | _ => none),
    ("free".toList, fun
      | [.pointer ptr] => some (.free ptr)
      | _ => none),
    ("yield_".toList, fun
      | [] => some .yield
      | _ => none),
    ("log".toList, fun
      | [.slice message, .word level] => some (.log message level)
      | _ => none)]

/-- What the generated `dispatch_syscall` does. -/
def dispatchGenerated (P : Platform) (arms : List DispatchArm) (k : Kernel) :
    Checked (SyscallResult Unit) :=
  match dispatch arms k.registers with
  | .error err => pure (k, .error (.userErr err))
  | .ok (arm, words) =>
      match (syscallHandlers.lookup arm.handler).bind (· words) with
      | none => throw (.unimplemented .syscallArgument)
      | some call => do
          match ← call.perform P k with
          | (k, .ok results) =>
              pure ({ k with registers := arm.write results k.registers }, .ok ())
          | (k, .error action) => pure (k, .error action)

variable {P : Platform} {k : Kernel} {arms : List DispatchArm}

open Deravel.Syscall in
/-- A call has as many results as it declares. -/
lemma perform_length {k' : Kernel} {call : Deravel.Syscall} {results : List ℕ}
    (h : call.perform P k = .ok (k', .ok results)) : results.length = call.resultCount := by
  have hanswer : ∀ {α : Type} {write : α → List ℕ} {x : Checked (SyscallResult α)},
      (∀ a, (write a).length = call.resultCount) →
        answering write <$> x = .ok (k', .ok results) → results.length = call.resultCount := by
    intro α write x hwrite hx
    obtain ⟨r, -, hr⟩ := Kernel.answering_eq_ok hx
    cases r with
    | error action => cases hr
    | ok a =>
        cases hr
        exact hwrite a
  cases call with
  | exit => exact hanswer (fun a => a.elim) h
  | _ => exact hanswer (fun _ => rfl) h

/-- What a call does after it was read. -/
def performWith (P : Platform) (arm : DispatchArm) (k : Kernel) (call : Deravel.Syscall) :
    Checked (SyscallResult Unit) := do
  match ← call.perform P k with
  | (k, .ok results) => pure ({ k with registers := arm.write results k.registers }, .ok ())
  | (k, .error action) => pure (k, .error action)

/-- An arm that writes all of the results does what the kernel does. -/
lemma performWith_eq {arm : DispatchArm} {call : Deravel.Syscall}
    (h : ∀ results registers, results.length = call.resultCount →
      arm.write results registers = Kernel.writeResults registers results) :
    performWith P arm k call = Kernel.returning id <$> call.perform P k := by
  rw [performWith]
  cases hcall : call.perform P k with
  | error e => rfl
  | ok left =>
      obtain ⟨k', r⟩ := left
      cases r with
      | error action => rfl
      | ok results =>
          have hlength := perform_length hcall
          simp only [Checked.ok_bind, h results k'.registers hlength]
          rfl

lemma write_nothing {number : ℕ} {handler : List Char} {values : List ArgValue} :
    ∀ results registers, results.length = 0 →
      DispatchArm.write ⟨number, handler, values, .nothing⟩ results registers =
        Kernel.writeResults registers results := by
  intro results registers h
  obtain rfl := List.eq_nil_of_length_eq_zero h
  rfl

lemma write_whole {number : ℕ} {handler : List Char} {values : List ArgValue} :
    ∀ results registers, results.length = 1 →
      DispatchArm.write ⟨number, handler, values, .whole⟩ results registers =
        Kernel.writeResults registers results := by
  intro results registers h
  obtain ⟨result, rfl⟩ := List.length_eq_one_iff.mp h
  rfl

lemma write_pair {number : ℕ} {handler : List Char} {values : List ArgValue} :
    ∀ results registers, results.length = 2 →
      DispatchArm.write ⟨number, handler, values, .components [0, 1]⟩ results registers =
        Kernel.writeResults registers results := by
  intro results registers h
  obtain ⟨first, second, rfl⟩ := List.length_eq_two.mp h
  rfl

lemma write_four {number : ℕ} {handler : List Char} {values : List ArgValue} :
    ∀ results registers, results.length = 4 →
      DispatchArm.write ⟨number, handler, values, .components [0, 1, 2, 3]⟩ results registers =
        Kernel.writeResults registers results := by
  intro results registers h
  match results, h with
  | [_, _, _, _], _ => rfl

/-- What a call does after its arm was found. -/
def dispatchArm (P : Platform) (arm : DispatchArm) (k : Kernel) : Checked (SyscallResult Unit) :=
  match arm.values.mapM (ArgValue.read k.registers) with
  | .error err => pure (k, .error (.userErr err))
  | .ok words =>
      match (syscallHandlers.lookup arm.handler).bind (· words) with
      | none => throw (.unimplemented .syscallArgument)
      | some call => performWith P arm k call

lemma dispatchGenerated_of_find {arm : DispatchArm}
    (h : (arms.find? fun arm => arm.number = k.registers .a6) = some arm) :
    dispatchGenerated P arms k = dispatchArm P arm k := by
  rw [dispatchGenerated, dispatch, h, dispatchArm]
  simp only
  cases arm.values.mapM (ArgValue.read k.registers) with
  | error err => rfl
  | ok words => rfl

/-- An arm that takes out `x`, for a method that makes a call of it. -/
lemma dispatchArm_eq {α : Type} {arm : DispatchArm} {x : Except UserSyscallError α}
    (words : α → List ArgWord) (call : α → Deravel.Syscall)
    (hvalues : arm.values.mapM (ArgValue.read k.registers) = words <$> x)
    (hcall : ∀ a, (syscallHandlers.lookup arm.handler).bind (· (words a)) = some (call a))
    (hwrite : ∀ a results registers, results.length = (call a).resultCount →
      arm.write results registers = Kernel.writeResults registers results) :
    dispatchArm P arm k =
      match call <$> x with
      | .ok call => Kernel.returning id <$> call.perform P k
      | .error err => pure (k, .error (.userErr err)) := by
  rw [dispatchArm, hvalues]
  cases x with
  | error err => rfl
  | ok a =>
      show (match (syscallHandlers.lookup arm.handler).bind (· (words a)) with
        | none => throw (Panic.unimplemented .syscallArgument)
        | some call => performWith P arm k call) = _
      rw [hcall a]
      exact performWith_eq (hwrite a)

/-! The registers that the arms read. -/

section Read

variable {a : RiscvRegisters}

lemma read_capability : ArgValue.read a (.capability 0) =
    .capability <$> Kernel.capabilityArg (a .a0) := rfl

lemma read_sharedMemory : ArgValue.read a (.sharedMemory 0) =
    .capability <$> Kernel.capabilityArg (a .a0) := rfl

lemma read_slice : ArgValue.read a (.slice 0 1) = .slice <$> Syscall.sliceArg (a .a0) (a .a1) := rfl

lemma read_pointer : ArgValue.read a (.pointer 0) = .pointer <$> Kernel.checkPointer (a .a0) := rfl

/-- One argument that may be no value, and words behind it. -/
lemma mapM_read {α : Type} {value : ArgValue} {values : List ArgValue} {words : List ArgWord}
    {make : α → ArgWord} {x : Except UserSyscallError α} (h : value.read a = make <$> x)
    (hvalues : values.mapM (ArgValue.read a) = .ok words) :
    (value :: values).mapM (ArgValue.read a) = (fun arg => make arg :: words) <$> x := by
  rw [List.mapM_cons, h, hvalues]
  cases x <;> rfl

/-- The arguments of `ipc_call`. -/
def ipcCallArgs (a : RiscvRegisters) :
    Except UserSyscallError (RawCapability × UserSlice × UserSlice) := do
  let cap ← Kernel.capabilityArg (a .a0)
  let args ← Syscall.sliceArg (a .a2) (a .a3)
  let result ← Syscall.sliceArg (a .a4) (a .a5)
  pure (cap, args, result)

lemma mapM_read_ipcCall :
    [ArgValue.capability 0, .usize 1, .slice 2 3, .slice 4 5].mapM (ArgValue.read a) =
      (fun x => [.capability x.1, .word (a .a1), .slice x.2.1, .slice x.2.2]) <$> ipcCallArgs a := by
  have hargs : ArgValue.read a (.slice 2 3) = .slice <$> Syscall.sliceArg (a .a2) (a .a3) := rfl
  have hresult : ArgValue.read a (.slice 4 5) = .slice <$> Syscall.sliceArg (a .a4) (a .a5) := rfl
  rw [List.mapM_cons, List.mapM_cons, List.mapM_cons, mapM_read hresult List.mapM_nil, hargs,
    read_capability, ipcCallArgs]
  cases Kernel.capabilityArg (a .a0) with
  | error err => rfl
  | ok cap =>
      cases Syscall.sliceArg (a .a2) (a .a3) with
      | error err => rfl
      | ok args => cases Syscall.sliceArg (a .a4) (a .a5) <;> rfl

end Read

lemma dispatch_interfacesArms : dispatchGenerated P interfacesArms k = k.dispatchSyscall P := by
  have hfind : ∀ (n : ℕ) {arm : DispatchArm},
      (interfacesArms.find? fun arm => arm.number = n) = some arm → k.registers .a6 = n →
        dispatchGenerated P interfacesArms k = dispatchArm P arm k := fun n arm h hn =>
    dispatchGenerated_of_find (hn ▸ h)
  rw [Kernel.dispatchSyscall_eq, Syscall.read]
  generalize hnumber : k.registers .a6 = number
  rcases number with _ | _ | _ | _ | _ | _ | _ | _ | _ | _ | _ | n
  · rw [hfind 0 rfl hnumber]
    exact performWith_eq write_nothing
  · rw [hfind 1 rfl hnumber]
    refine Eq.trans (dispatchArm_eq _ (fun x => .ipcCall x.1 (k.registers .a1) x.2.1 x.2.2)
      mapM_read_ipcCall (fun _ => rfl) fun _ => write_whole) ?_
    rw [ipcCallArgs]
    cases Kernel.capabilityArg (k.registers .a0) with
    | error err => rfl
    | ok cap =>
        cases Syscall.sliceArg (k.registers .a2) (k.registers .a3) with
        | error err => rfl
        | ok args => cases Syscall.sliceArg (k.registers .a4) (k.registers .a5) <;> rfl
  · rw [hfind 2 rfl hnumber, dispatchArm_eq _ .ipcReceive (mapM_read read_slice List.mapM_nil)
      (fun _ => rfl) fun _ => write_four]
    cases Syscall.sliceArg (k.registers .a0) (k.registers .a1) <;> rfl
  · rw [hfind 3 rfl hnumber, dispatchArm_eq _ .ipcReply (mapM_read read_slice List.mapM_nil)
      (fun _ => rfl) fun _ => write_nothing]
    cases Syscall.sliceArg (k.registers .a0) (k.registers .a1) <;> rfl
  · have hwords : [ArgValue.usize 1].mapM (ArgValue.read k.registers) =
        .ok [.word (k.registers .a1)] := rfl
    rw [hfind 4 rfl hnumber, dispatchArm_eq _ (.ipcStream · (k.registers .a1))
      (mapM_read read_capability hwords) (fun _ => rfl) fun _ => write_pair]
    cases Kernel.capabilityArg (k.registers .a0) <;> rfl
  · rw [hfind 5 rfl hnumber]
    exact performWith_eq write_whole
  · rw [hfind 6 rfl hnumber]
    exact performWith_eq write_pair
  · rw [hfind 7 rfl hnumber, dispatchArm_eq _ .mapShared (mapM_read read_sharedMemory List.mapM_nil)
      (fun _ => rfl) fun _ => write_pair]
    cases Kernel.capabilityArg (k.registers .a0) <;> rfl
  · rw [hfind 8 rfl hnumber, dispatchArm_eq _ .free (mapM_read read_pointer List.mapM_nil)
      (fun _ => rfl) fun _ => write_nothing]
    cases Kernel.checkPointer (k.registers .a0) <;> rfl
  · rw [hfind 9 rfl hnumber]
    exact performWith_eq write_nothing
  · have hwords : [ArgValue.u64 2].mapM (ArgValue.read k.registers) =
        .ok [.word (k.registers .a2)] := rfl
    rw [hfind 10 rfl hnumber, dispatchArm_eq _ (.log · (k.registers .a2))
      (mapM_read read_slice hwords) (fun _ => rfl) fun _ => write_nothing]
    cases Syscall.sliceArg (k.registers .a0) (k.registers .a1) <;> rfl
  · rw [dispatchGenerated, dispatch, hnumber]
    rfl

/-- **The dispatcher that is generated from the file is the one of the kernel.**  The text of
`interfaces.drvli` parses, and the function that is generated from it goes from every state of the kernel
to the same outcome as `Kernel.dispatchSyscall`, also for numbers that are no call and for arguments that
are no values.  So what is proved about the latter is about what is generated. -/
theorem dispatchSyscall_interfacesDrvli (P : Platform) :
    ∃ d arms, parseDrvli interfacesDrvli = .ok d ∧ dispatchArms d = .ok arms ∧
      ∀ k, dispatchGenerated P arms k = k.dispatchSyscall P :=
  ⟨interfaces, interfacesArms, parseDrvli_interfacesDrvli, dispatchArms_interfaces,
    fun _ => dispatch_interfacesArms⟩

/-! ## The functions -/

/-- What user code links against. -/
def interfacesFunctions : List SyscallFunction := (syscallFunctions interfaces).toOption.getD []

/-- What the kernel implements. -/
def interfacesMethods : List SyscallMethod := (syscallMethods interfaces).toOption.getD []

lemma syscallFunctions_interfaces : syscallFunctions interfaces = .ok interfacesFunctions := rfl

lemma syscallMethods_interfaces : syscallMethods interfaces = .ok interfacesMethods := rfl

/-- All of the functions compile. -/
lemma compiles_interfaces : ∀ f ∈ interfacesFunctions, f.Compiles := by
  simp only [SyscallFunction.compiles_iff]
  decide +kernel

/-- A call of `ipc_receive`: the kernel gets the slice, and user code the four words. -/
theorem syscall_agreement_ipcReceive :
    ∃ f arm, interfacesFunctions[2]? = some f ∧ interfacesArms[2]? = some arm ∧
      dispatch interfacesArms (f.enter [0x1000, 100] fun _ => 0) = .ok (arm, [.slice ⟨0x1000, 100⟩]) ∧
      f.leave (arm.write [0x2000, 3, 7, 2] fun _ => 0) = [0x2000, 3, 7, 2] := by
  have hwords : Fits [("args".toList, .array .u8)] [[0x1000, 100]] := .cons rfl .nil
  have hmem : interfacesFunctions[2] ∈ interfacesFunctions := List.getElem_mem (by decide +kernel)
  obtain ⟨arm, -, results, harm, -, -, -, -, -, hpasses, hdispatch, hreturns⟩ :=
    syscall_agreement syscallFunctions_interfaces dispatchArms_interfaces syscallMethods_interfaces
      (n := 2) rfl rfl (compiles_interfaces _ hmem) hwords fun _ => 0
  refine ⟨_, arm, rfl, harm, ?_, (hreturns (by simp) [0x2000, 3, 7, 2] _ rfl).1⟩
  cases hpasses with
  | cons hslice hnil =>
      cases hslice
      cases hnil
      exact hdispatch

end Codegen

end Deravel
