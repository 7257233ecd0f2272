import DeravelOs.Codegen.Rust
import DeravelOs.Kernel.Registers

/-!
# System calls on both sides

`generate_syscalls` of `kernel-api/build.rs` writes a function for each system call of a description,
which puts its arguments into registers; `generate_syscall_dispatch` of `kernel/build.rs` writes the
function of the kernel that takes them out again.  The two build scripts share the description and
`split_syscall_arg`, and nothing else.

* `SyscallFunction`, `generateSyscalls`: what user code calls, and what `asm!` makes of it.
* `DispatchArm`, `generateSyscallDispatch`: what the kernel does with the registers.
* `SyscallMethod`, `generateSyscallTrait`: what the kernel implements.
* `dispatch_call`: the kernel gets each argument from the words that user code passed for it.
* `returned_words`: user code gets the words that the kernel returned.
-/

namespace Deravel

namespace Codegen

/-- A number in a format string. -/
def decimal (n : ℕ) : List Char := Nat.toDigits 10 n

/-- What a function is declared to return. -/
inductive ReturnSignature
  | unit
  | one (type : List Char)
  | tuple (types : List (List Char))
  deriving DecidableEq, Repr

/-! ## The side of user code -/

/-- A function of `pub mod syscall`.  Registers have numbers here, and variables names. -/
structure SyscallFunction where
  name : List Char
  params : List (List Char × List Char)
  returns : ReturnSignature
  inputs : List (ℕ × List Char)
  number : ℕ
  outputs : List ℕ
  deriving DecidableEq, Repr

/-- The variable that `lateout` writes a register to. -/
def outputName (register : ℕ) : List Char := 'a' :: decimal register

/-- The text of such a function. -/
def SyscallFunction.print (f : SyscallFunction) : List Char :=
  "    pub unsafe fn ".toList ++ f.name ++ "(".toList ++
    (f.params.flatMap fun p => p.1 ++ ": ".toList ++ p.2 ++ ", ".toList) ++ ")".toList ++
    (match f.returns with
      | .unit => []
      | .one type => " -> ".toList ++ type
      | .tuple types =>
          " -> (".toList ++ (types.flatMap fun type => type ++ ", ".toList) ++
            "            )\n".toList) ++
    " \x7b\n".toList ++
    (f.outputs.flatMap fun i => "        let ".toList ++ outputName i ++ ": usize;\n".toList) ++
    "        unsafe \x7b\n".toList ++
    "            core::arch::asm!(\n".toList ++
    "                \"ecall\",\n".toList ++
    (f.inputs.flatMap fun p => "                in(\"a".toList ++ decimal p.1 ++ "\") to_reg(".toList ++
      p.2 ++ "),\n".toList) ++
    "                in(\"a6\") ".toList ++ decimal f.number ++ ",\n".toList ++
    (f.outputs.flatMap fun i => "                lateout(\"a".toList ++ decimal i ++ "\") ".toList ++
      outputName i ++ ",\n".toList) ++
    "            );\n".toList ++
    (match f.returns with
      | .unit => []
      | .one _ => "            from_reg(a0)\n".toList
      | .tuple _ =>
          "            (".toList ++
            (f.outputs.flatMap fun i => "from_reg(".toList ++ outputName i ++ "), ".toList) ++
            "            )\n".toList) ++
    "        \x7d\n".toList ++
    "    \x7d\n".toList

/-- The pieces of the arguments, with the names of the variables for them. -/
def argPieces (args : List (List Char × DrvliType)) : List (List Char × DrvliType) :=
  args.flatMap fun arg => (splitSyscallArg arg.2).map fun piece => (arg.1 ++ piece.1, piece.2)

/-- The pieces of the result. -/
def retPieces (returnType : Option DrvliType) : List DrvliType :=
  returnType.toList.flatMap splitSyscallRet

/-- What is written of the return type. -/
def returnSignature (returnType : Option DrvliType) : Checked ReturnSignature :=
  match returnType with
  | none => pure .unit
  | some type =>
      if (retPieces returnType).length = 1 then do
        let type ← type.rust .syscallRet
        pure (.one type)
      else do
        let types ← (splitSyscallRet type).mapM (DrvliType.rust .syscallRet)
        pure (.tuple types)

/-- The function for a system call. -/
def generateSyscall (number : ℕ) (s : Syscall) : Checked SyscallFunction := do
  let params ← (argPieces s.args).mapM fun piece => do
    let type ← piece.2.rust .syscallArg
    pure (piece.1, type)
  let returns ← returnSignature s.returnType
  pure {
    name := rustEscapeName s.name
    params := params
    returns := returns
    inputs := (argPieces s.args).zipIdx.map fun (piece, i) => (i, piece.1)
    number := number
    outputs := List.range (retPieces s.returnType).length }

/-- The functions for all of them. -/
def syscallFunctions (d : Drvli) : Checked (List SyscallFunction) :=
  d.syscalls.zipIdx.mapM fun (s, number) => generateSyscall number s

/-- `generate_syscalls` -/
def generateSyscalls (d : Drvli) : Checked (List Char) := do
  let functions ← syscallFunctions d
  pure ("pub mod syscall \x7b\n".toList ++
    "    #![allow(clippy::missing_safety_doc)]\n".toList ++
    "    use crate::abi::\x7bfrom_reg, to_reg\x7d;\n".toList ++
    "    use deravel_types::*;\n".toList ++
    functions.flatMap SyscallFunction.print ++
    "\x7d\n".toList)

/-! ## The side of the kernel -/

/-- A function of `trait SyscallHandler`. -/
structure SyscallMethod where
  name : List Char
  params : List (List Char × List Char)
  returns : ReturnSignature
  deriving DecidableEq, Repr

/-- The text of such a function. -/
def SyscallMethod.print (m : SyscallMethod) : List Char :=
  "    fn ".toList ++ m.name ++ "(user: &mut UserCtx".toList ++
    (m.params.flatMap fun p => ", ".toList ++ p.1 ++ ": ".toList ++ p.2) ++ ")".toList ++
    (match m.returns with
      | .unit => " -> crate::syscall::Result<()>".toList
      | .one type => " -> crate::syscall::Result<".toList ++ type ++ ">".toList
      | .tuple types =>
          " -> crate::syscall::Result<(".toList ++
            (types.flatMap fun type => type ++ ", ".toList) ++ "            )>\n".toList) ++
    ";\n".toList

/-- The function for a system call. -/
def generateSyscallMethod (s : Syscall) : Checked SyscallMethod := do
  let params ← s.args.mapM fun arg => do
    let type ← arg.2.rust .syscallKernelArg
    pure (arg.1, type)
  let returns ← returnSignature s.returnType
  pure ⟨rustEscapeName s.name, params, returns⟩

/-- The functions for all of them. -/
def syscallMethods (d : Drvli) : Checked (List SyscallMethod) :=
  d.syscalls.mapM generateSyscallMethod

/-- `generate_syscall_trait` -/
def generateSyscallTrait (d : Drvli) : Checked (List Char) := do
  let methods ← syscallMethods d
  pure ("pub trait SyscallHandler \x7b\n".toList ++ methods.flatMap SyscallMethod.print ++
    "\x7d\n".toList)

/-- How an argument is taken out of registers. -/
inductive ArgValue
  | capability (register : ℕ)
  | sharedMemory (register : ℕ)
  | u64 (register : ℕ)
  | usize (register : ℕ)
  | slice (ptr size : ℕ)
  | pointer (register : ℕ)
  deriving DecidableEq, Repr

/-- A register in the text of the dispatcher. -/
def printRegister (register : ℕ) : List Char := "user.registers.a".toList ++ decimal register

/-- The text of an argument. -/
def ArgValue.print : ArgValue → List Char
  | .capability r =>
      "RawCapability::try_from(".toList ++ printRegister r ++
        " as *const CapabilityCertificate)?".toList
  | .sharedMemory r =>
      "unsafe \x7b Capability::new(RawCapability::try_from(".toList ++ printRegister r ++
        " as *const CapabilityCertificate)?) \x7d".toList
  | .u64 r => printRegister r ++ " as u64".toList
  | .usize r => printRegister r
  | .slice p s =>
      "UserPtr::from_slice(".toList ++ printRegister p ++ " as *mut u8, ".toList ++
        printRegister s ++ ")?".toList
  | .pointer r => "UserPtr::from_ptr(".toList ++ printRegister r ++ " as *mut u8)?".toList

/-- How an argument of this type is taken out, if the first free register has this number. -/
def argValue (used : ℕ) : DrvliType → Checked ArgValue
  | .untypedCapability => pure (.capability used)
  | .sharedMemory => pure (.sharedMemory used)
  | .u64 => pure (.u64 used)
  | .usize => pure (.usize used)
  | .array .u8 => pure (.slice used (used + 1))
  | .constArray .u8 => pure (.slice used (used + 1))
  | .ptr .u8 => pure (.pointer used)
  | _ => throw (.unimplemented .syscallArgument)

/-- The arguments, with the number of registers that are used up so far. -/
def argValues (used : ℕ) : List (List Char × DrvliType) → Checked (List ArgValue)
  | [] => pure []
  | arg :: args => do
      let value ← argValue used arg.2
      let values ← argValues (used + (splitSyscallArg arg.2).length) args
      pure (value :: values)

/-- What an arm does with the result. -/
inductive ResultWrite
  | nothing
  | whole
  | components (indices : List ℕ)
  deriving DecidableEq, Repr

/-- An arm of the dispatcher. -/
structure DispatchArm where
  number : ℕ
  handler : List Char
  values : List ArgValue
  results : ResultWrite
  deriving DecidableEq, Repr

/-- The text of an arm. -/
def DispatchArm.print (arm : DispatchArm) : List Char :=
  "        ".toList ++ decimal arm.number ++ " => \x7b\n".toList ++
    "            let _result = <() as SyscallHandler>::".toList ++ arm.handler ++ "(user".toList ++
    (arm.values.flatMap fun value => ", ".toList ++ value.print) ++ ")?;\n".toList ++
    (match arm.results with
      | .nothing => []
      | .whole => "            user.registers.a0 = unsafe \x7b to_reg(_result) \x7d;\n".toList
      | .components indices => indices.flatMap fun i =>
          "            ".toList ++ printRegister i ++ " = unsafe \x7b to_reg(_result.".toList ++
            decimal i ++ ") \x7d;\n".toList) ++
    "        \x7d\n".toList

/-- Which registers are written: none if the call never returns. -/
def resultWrite : Option DrvliType → ResultWrite
  | none => .nothing
  | some .never => .nothing
  | some type =>
      if (splitSyscallRet type).length = 1 then .whole
      else .components (List.range (splitSyscallRet type).length)

/-- The arm for a system call. -/
def generateArm (number : ℕ) (s : Syscall) : Checked DispatchArm := do
  let values ← argValues 0 s.args
  pure ⟨number, rustEscapeName s.name, values, resultWrite s.returnType⟩

/-- The arms for all of them. -/
def dispatchArms (d : Drvli) : Checked (List DispatchArm) :=
  d.syscalls.zipIdx.mapM fun (s, number) => generateArm number s

/-- `generate_syscall_dispatch` -/
def generateSyscallDispatch (d : Drvli) : Checked (List Char) := do
  let arms ← dispatchArms d
  pure ("pub fn dispatch_syscall(user: &mut UserCtx) -> crate::syscall::Result<()> \x7b\n".toList ++
    "    #![allow(clippy::diverging_sub_expression)]\n".toList ++
    "    match user.registers.a6 \x7b\n".toList ++
    arms.flatMap DispatchArm.print ++
    "        _ => return Err(UserSyscallError::InvalidSyscallNumber.into()),\n".toList ++
    "    \x7d\n".toList ++
    "    Ok(())\n".toList ++
    "\x7d\n".toList)

/-! ## What the compiler makes of it -/

/-- The registers for arguments and results. -/
def argRegisters : List Register := [.a0, .a1, .a2, .a3, .a4, .a5, .a6, .a7]

/-- The register with this number. -/
def argument (registers : RiscvRegisters) (i : ℕ) : ℕ :=
  match argRegisters[i]? with
  | some register => registers register
  | none => 0

/-- A register with this number is written. -/
def setArgument (registers : RiscvRegisters) (i word : ℕ) : RiscvRegisters :=
  match argRegisters[i]? with
  | some register => Function.update registers register word
  | none => registers

/-- Registers are written one after the other. -/
def setArguments {α : Type} (key value : α → ℕ) (l : List α) (registers : RiscvRegisters) :
    RiscvRegisters :=
  l.foldl (fun registers a => setArgument registers (key a) (value a)) registers

namespace SyscallFunction

/-- What the compiler asks of the function: the registers exist and are not used twice, and the
variables are parameters, which are different and not hidden by the variables for the results. -/
structure Compiles (f : SyscallFunction) : Prop where
  params_nodup : (f.params.map Prod.fst).Nodup
  inputs_nodup : (6 :: f.inputs.map Prod.fst).Nodup
  inputs_exist : ∀ p ∈ f.inputs, p.1 < argRegisters.length
  outputs_exist : ∀ i ∈ f.outputs, i < argRegisters.length
  inputs_bound : ∀ p ∈ f.inputs, p.2 ∈ f.params.map Prod.fst ∧ p.2 ∉ f.outputs.map outputName

/-- All of this can be checked. -/
lemma compiles_iff (f : SyscallFunction) : f.Compiles ↔
    (f.params.map Prod.fst).Nodup ∧ (6 :: f.inputs.map Prod.fst).Nodup ∧
      (∀ p ∈ f.inputs, p.1 < argRegisters.length) ∧ (∀ i ∈ f.outputs, i < argRegisters.length) ∧
      ∀ p ∈ f.inputs, p.2 ∈ f.params.map Prod.fst ∧ p.2 ∉ f.outputs.map outputName :=
  ⟨fun h => ⟨h.1, h.2, h.3, h.4, h.5⟩, fun h => ⟨h.1, h.2.1, h.2.2.1, h.2.2.2.1, h.2.2.2.2⟩⟩

/-- What stands in a variable when the function is called with these words. -/
def valueOf (f : SyscallFunction) (words : List ℕ) (name : List Char) : ℕ :=
  (((f.params.map Prod.fst).zip words).lookup name).getD 0

/-- The registers at the `ecall`. -/
def enter (f : SyscallFunction) (words : List ℕ) (before : RiscvRegisters) : RiscvRegisters :=
  setArgument (setArguments Prod.fst (fun p => f.valueOf words p.2) f.inputs before) 6 f.number

/-- The words that the function returns, from the registers behind the `ecall`. -/
def leave (f : SyscallFunction) (after : RiscvRegisters) : List ℕ := f.outputs.map (argument after)

end SyscallFunction

/-- A value that the kernel takes out of registers. -/
inductive ArgWord
  | capability (cap : RawCapability)
  | word (w : ℕ)
  | slice (s : UserSlice)
  | pointer (ptr : ℕ)
  deriving DecidableEq, Repr

/-- What the text of an argument evaluates to. -/
def ArgValue.read (registers : RiscvRegisters) : ArgValue → Except UserSyscallError ArgWord
  | .capability r => .capability <$> Kernel.capabilityArg (argument registers r)
  | .sharedMemory r => .capability <$> Kernel.capabilityArg (argument registers r)
  | .u64 r => .ok (.word (argument registers r))
  | .usize r => .ok (.word (argument registers r))
  | .slice p s => .slice <$> Syscall.sliceArg (argument registers p) (argument registers s)
  | .pointer r => .pointer <$> Kernel.checkPointer (argument registers r)

/-- What `dispatch_syscall` calls: an arm, and the arguments that it takes out. -/
def dispatch (arms : List DispatchArm) (registers : RiscvRegisters) :
    Except UserSyscallError (DispatchArm × List ArgWord) :=
  match arms.find? fun arm => arm.number = registers .a6 with
  | none => .error .invalidSyscallNumber
  | some arm => (arm, ·) <$> arm.values.mapM (ArgValue.read registers)

/-- The registers behind a call that returned these words. -/
def DispatchArm.write (arm : DispatchArm) (results : List ℕ) (registers : RiscvRegisters) :
    RiscvRegisters :=
  match arm.results with
  | .nothing => registers
  | .whole => setArgument registers 0 (results.getD 0 0)
  | .components indices => setArguments id (fun i => results.getD i 0) indices registers

/-! ## Registers -/

variable {α : Type} {registers before : RiscvRegisters} {i j word : ℕ} {ρ : Register}

lemma argRegisters_nodup : argRegisters.Nodup := by decide

lemma argument_setArgument (hi : i < argRegisters.length) :
    argument (setArgument registers i word) j = if j = i then word else argument registers j := by
  have hi' : argRegisters[i]? = some argRegisters[i] := List.getElem?_eq_getElem hi
  rw [setArgument, hi']
  by_cases hj : j < argRegisters.length
  · have hj' : argRegisters[j]? = some argRegisters[j] := List.getElem?_eq_getElem hj
    simp only [argument, hj', Function.update_apply, argRegisters_nodup.getElem_inj_iff]
  · have hne : j ≠ i := fun h => hj (h ▸ hi)
    have hj' : argRegisters[j]? = none := List.getElem?_eq_none (Nat.le_of_not_lt hj)
    simp only [argument, hj', if_neg hne]

lemma setArgument_of_ne (h : argRegisters[i]? ≠ some ρ) : setArgument registers i word ρ = registers ρ := by
  rw [setArgument]
  cases hregister : argRegisters[i]? with
  | none => rfl
  | some register =>
      exact Function.update_of_ne (fun heq => h (hregister.trans (congrArg some heq.symm))) _ _

section Writes

variable {key value : α → ℕ} {l : List α}

lemma argument_setArguments_of_notMem (hexist : ∀ a ∈ l, key a < argRegisters.length)
    (h : ∀ a ∈ l, i ≠ key a) :
    argument (setArguments key value l registers) i = argument registers i := by
  induction l generalizing registers with
  | nil => rfl
  | cons a l ih =>
      obtain ⟨ha, hl⟩ := List.forall_mem_cons.mp h
      obtain ⟨hexist_a, hexist_l⟩ := List.forall_mem_cons.mp hexist
      rw [setArguments, List.foldl_cons]
      exact (ih hexist_l hl).trans ((argument_setArgument hexist_a).trans (if_neg ha))

/-- If they are different, each of them has what was written to it. -/
lemma argument_setArguments (hexist : ∀ a ∈ l, key a < argRegisters.length)
    (hnodup : (l.map key).Nodup) : ∀ a ∈ l,
      argument (setArguments key value l registers) (key a) = value a := by
  induction l generalizing registers with
  | nil => exact fun a ha => absurd ha List.not_mem_nil
  | cons b l ih =>
      obtain ⟨hb, hl⟩ := List.nodup_cons.mp hnodup
      obtain ⟨hexist_b, hexist_l⟩ := List.forall_mem_cons.mp hexist
      intro a ha
      rw [setArguments, List.foldl_cons]
      rcases List.mem_cons.mp ha with rfl | ha
      · refine (argument_setArguments_of_notMem hexist_l fun c hc heq => ?_).trans ?_
        · exact hb (heq ▸ List.mem_map_of_mem hc)
        · rw [argument_setArgument hexist_b, if_pos rfl]
      · exact ih hexist_l hl a ha

lemma setArguments_of_ne (h : ∀ a ∈ l, argRegisters[key a]? ≠ some ρ) :
    setArguments key value l registers ρ = registers ρ := by
  induction l generalizing registers with
  | nil => rfl
  | cons a l ih =>
      obtain ⟨ha, hl⟩ := List.forall_mem_cons.mp h
      rw [setArguments, List.foldl_cons]
      exact (ih hl).trans (setArgument_of_ne ha)

end Writes

/-! ## Arguments -/

/-- Among different keys, each is found in its place. -/
lemma lookup_zip_getElem {β : Type} {keys : List (List Char)} {values : List β} (hnodup : keys.Nodup)
    {n : ℕ} (hkey : n < keys.length) (hvalue : n < values.length) :
    (keys.zip values).lookup keys[n] = some values[n] := by
  induction keys generalizing values n with
  | nil => exact absurd hkey (Nat.not_lt_zero n)
  | cons key keys ih =>
      obtain ⟨hnot, hnodup⟩ := List.nodup_cons.mp hnodup
      cases values with
      | nil => exact absurd hvalue (Nat.not_lt_zero n)
      | cons value values =>
          cases n with
          | zero => simp
          | succ n =>
              simp only [List.length_cons, Nat.add_lt_add_iff_right] at hkey hvalue
              have hne : (keys[n] == key) = false := by
                simpa using fun heq : keys[n] = key => hnot (heq ▸ List.getElem_mem hkey)
              rw [List.zip_cons_cons, List.getElem_cons_succ, List.getElem_cons_succ, List.lookup_cons,
                hne]
              exact ih hnodup hkey hvalue

variable {f : SyscallFunction} {words : List ℕ} {number : ℕ} {s : Syscall} {d : Drvli}

lemma generateSyscall_eq_ok (h : generateSyscall number s = .ok f) :
    f.name = rustEscapeName s.name ∧ f.number = number ∧
      f.params.map Prod.fst = (argPieces s.args).map Prod.fst ∧
      f.inputs = (argPieces s.args).zipIdx.map (fun p => (p.2, p.1.1)) ∧
      f.outputs = List.range (retPieces s.returnType).length := by
  obtain ⟨params, hparams, h⟩ := Checked.bind_eq_ok.mp h
  obtain ⟨returns, -, h⟩ := Checked.bind_eq_ok.mp h
  cases h
  refine ⟨rfl, rfl, ?_, rfl, rfl⟩
  clear * - hparams
  generalize argPieces s.args = pieces at hparams ⊢
  induction pieces generalizing params with
  | nil =>
      cases hparams
      rfl
  | cons piece pieces ih =>
      rw [List.mapM_cons] at hparams
      obtain ⟨param, hparam, hparams⟩ := Checked.bind_eq_ok.mp hparams
      obtain ⟨rest, hrest, hparams⟩ := Checked.bind_eq_ok.mp hparams
      cases hparams
      obtain ⟨type, -, hparam⟩ := Checked.bind_eq_ok.mp hparam
      cases hparam
      simp only [List.map_cons, List.cons.injEq, true_and]
      exact ih _ hrest

/-- At the `ecall`, each piece is in the register of its place. -/
lemma argument_enter (h : generateSyscall number s = .ok f) (hcompiles : f.Compiles)
    (hwords : words.length = (argPieces s.args).length) (hi : i < words.length) :
    argument (f.enter words before) i = words[i] := by
  obtain ⟨-, -, hparams, hinputs, -⟩ := generateSyscall_eq_ok h
  have hi' : i < (argPieces s.args).length := hwords ▸ hi
  have hmem : (i, (argPieces s.args)[i].1) ∈ f.inputs := by
    rw [hinputs]
    exact List.mem_map.mpr ⟨((argPieces s.args)[i], i),
      List.mk_mem_zipIdx_iff_getElem?.mpr (List.getElem?_eq_getElem hi'), rfl⟩
  obtain ⟨hsix, hnodup⟩ := List.nodup_cons.mp hcompiles.inputs_nodup
  have hne : i ≠ 6 := fun heq => hsix (heq ▸ List.mem_map_of_mem hmem)
  rw [SyscallFunction.enter, argument_setArgument (by decide), if_neg hne]
  refine (argument_setArguments hcompiles.inputs_exist hnodup _ hmem).trans ?_
  -- the variable is the parameter in this place
  have hlength : i < (f.params.map Prod.fst).length := by
    rw [hparams, List.length_map]
    exact hi'
  have hname : (f.params.map Prod.fst)[i] = (argPieces s.args)[i].1 := by
    simp only [hparams, List.getElem_map]
  have hlookup : ((f.params.map Prod.fst).zip words).lookup (argPieces s.args)[i].1 =
      some words[i] := by
    rw [← hname]
    exact lookup_zip_getElem hcompiles.params_nodup hlength hi
  simp only [SyscallFunction.valueOf, hlookup, Option.getD_some]

/-- What the words of an argument stand for, by the type of the argument alone. -/
inductive Passes : DrvliType → List ℕ → Except UserSyscallError ArgWord → Prop
  | capability (w : ℕ) : Passes .untypedCapability [w] (.capability <$> Kernel.capabilityArg w)
  | sharedMemory (w : ℕ) : Passes .sharedMemory [w] (.capability <$> Kernel.capabilityArg w)
  | u64 (w : ℕ) : Passes .u64 [w] (.ok (.word w))
  | usize (w : ℕ) : Passes .usize [w] (.ok (.word w))
  | array (ptr size : ℕ) : Passes (.array .u8) [ptr, size] (.slice <$> Syscall.sliceArg ptr size)
  | constArray (ptr size : ℕ) :
      Passes (.constArray .u8) [ptr, size] (.slice <$> Syscall.sliceArg ptr size)
  | pointer (ptr : ℕ) : Passes (.ptr .u8) [ptr] (.pointer <$> Kernel.checkPointer ptr)

/-- Words for arguments: one for each piece. -/
def Fits (args : List (List Char × DrvliType)) (words : List (List ℕ)) : Prop :=
  List.Forall₂ (fun arg w => w.length = (splitSyscallArg arg.2).length) args words

lemma Fits.flatten {args : List (List Char × DrvliType)} {words : List (List ℕ)}
    (h : Fits args words) : words.flatten.length = (argPieces args).length := by
  induction h with
  | nil => rfl
  | cons hhead _ ih =>
      rw [List.flatten_cons, List.length_append, ih, hhead, argPieces, argPieces, List.flatMap_cons,
        List.length_append, List.length_map]

lemma argValue_read {used : ℕ} {type : DrvliType} {value : ArgValue}
    (h : argValue used type = .ok value) (hlength : words.length = (splitSyscallArg type).length)
    (hwords : ∀ i (hi : i < words.length), argument registers (used + i) = words[i]) :
    Passes type words (value.read registers) := by
  unfold argValue at h
  split at h
  case h_8 => cases h
  case h_5 =>
    cases h
    obtain ⟨ptr, size, rfl⟩ := List.length_eq_two.mp hlength
    have hptr := hwords 0 (by simp)
    have hsize := hwords 1 (by simp)
    simp only [ArgValue.read, Nat.add_zero, List.getElem_cons_zero, List.getElem_cons_succ] at *
    rw [hptr, hsize]
    exact .array ptr size
  case h_6 =>
    cases h
    obtain ⟨ptr, size, rfl⟩ := List.length_eq_two.mp hlength
    have hptr := hwords 0 (by simp)
    have hsize := hwords 1 (by simp)
    simp only [ArgValue.read, Nat.add_zero, List.getElem_cons_zero, List.getElem_cons_succ] at *
    rw [hptr, hsize]
    exact .constArray ptr size
  all_goals
    cases h
    obtain ⟨w, rfl⟩ := List.length_eq_one_iff.mp hlength
    have hw := hwords 0 (by simp)
    simp only [ArgValue.read, Nat.add_zero, List.getElem_cons_zero] at *
    rw [hw]
    constructor

/-- The registers are taken in the order in which they were filled. -/
lemma argValues_read {used : ℕ} {args : List (List Char × DrvliType)} {values : List ArgValue}
    {words : List (List ℕ)} (h : argValues used args = .ok values) (hfits : Fits args words)
    (hwords : ∀ i (hi : i < words.flatten.length),
      argument registers (used + i) = words.flatten[i]) :
    List.Forall₂ (fun p r => Passes p.1.2 p.2 r) (args.zip words)
      (values.map (ArgValue.read registers)) := by
  induction hfits generalizing used values with
  | nil =>
      cases h
      exact .nil
  | @cons arg w args words hlength hfits ih =>
      rw [argValues] at h
      obtain ⟨value, hvalue, h⟩ := Checked.bind_eq_ok.mp h
      obtain ⟨rest, hrest, h⟩ := Checked.bind_eq_ok.mp h
      cases h
      refine .cons (argValue_read hvalue hlength fun i hi => ?_) (ih hrest fun i hi => ?_)
      · have hi' : i < (w :: words).flatten.length := by
          rw [List.flatten_cons, List.length_append]
          exact Nat.lt_add_right _ hi
        rw [hwords i hi']
        simp only [List.flatten_cons, List.getElem_append_left hi]
      · have hi' : w.length + i < (w :: words).flatten.length := by
          rw [List.flatten_cons, List.length_append]
          exact Nat.add_lt_add_left hi _
        rw [← hlength, Nat.add_assoc, hwords (w.length + i) hi']
        simp only [List.flatten_cons, List.getElem_append_right (Nat.le_add_right _ _),
          Nat.add_sub_cancel_left]

/-- What is generated for the items of a list is in the order of the list, and numbered in it. -/
lemma mapM_zipIdx_getElem? {β : Type} {generate : α × ℕ → Checked β} {items : List α}
    {generated : List β} (h : items.zipIdx.mapM generate = .ok generated) {n : ℕ} {a : α}
    (ha : items[n]? = some a) : ∃ b, generated[n]? = some b ∧ generate (a, n) = .ok b := by
  have hall := Checked.mapM_eq_ok.mp h
  have hzip : items.zipIdx[n]? = some (a, n) := by
    rw [List.getElem?_zipIdx, ha, Nat.zero_add]
    rfl
  obtain ⟨hn, han⟩ := List.getElem?_eq_some_iff.mp hzip
  have hn' : n < generated.length := hall.length_eq ▸ hn
  refine ⟨generated[n], List.getElem?_eq_getElem hn', ?_⟩
  have hget := (List.forall₂_iff_get.mp hall).2 n hn hn'
  simpa only [List.get_eq_getElem, han] using hget

lemma generateArm_eq_ok {arm : DispatchArm} (h : generateArm number s = .ok arm) :
    arm.number = number ∧ arm.handler = rustEscapeName s.name ∧
      argValues 0 s.args = .ok arm.values ∧ arm.results = resultWrite s.returnType := by
  obtain ⟨values, hvalues, h⟩ := Checked.bind_eq_ok.mp h
  cases h
  exact ⟨rfl, rfl, hvalues, rfl⟩

/-- The arm with a number is the one in this place. -/
lemma find?_dispatchArms {arms : List DispatchArm} (h : dispatchArms d = .ok arms) {n : ℕ}
    {arm : DispatchArm} (harm : arms[n]? = some arm) :
    (arms.find? fun arm => arm.number = n) = some arm := by
  have hlength : arms.length = d.syscalls.length := by
    have := (Checked.mapM_eq_ok.mp h).length_eq
    rwa [List.length_zipIdx, eq_comm] at this
  have hnumber : ∀ i (hi : i < arms.length), arms[i].number = i := by
    intro i hi
    obtain ⟨b, hb, hgenerate⟩ :=
      mapM_zipIdx_getElem? h (List.getElem?_eq_getElem (hlength ▸ hi : i < d.syscalls.length))
    rw [List.getElem?_eq_getElem hi] at hb
    rw [Option.some.inj hb]
    exact (generateArm_eq_ok hgenerate).1
  obtain ⟨hn, rfl⟩ := List.getElem?_eq_some_iff.mp harm
  refine List.find?_eq_some_iff_getElem.mpr ⟨by simpa using hnumber n hn, n, hn, rfl, ?_⟩
  intro j hj
  rw [hnumber j (hj.trans hn)]
  simpa using hj.ne

/-- **The kernel gets what user code passed:** the values of the arguments in their order; the first
argument that is no value is the error. -/
lemma dispatch_enter (before : Register → ℕ) {arms : List DispatchArm} {arm : DispatchArm}
    (harms : dispatchArms d = .ok arms) (harm : arms[number]? = some arm)
    (hf : generateSyscall number s = .ok f) (hgenerate : generateArm number s = .ok arm)
    (hcompiles : f.Compiles) {words : List (List ℕ)} (hwords : Fits s.args words) :
    ∃ results, List.Forall₂ (fun p r => Passes p.1.2 p.2 r) (s.args.zip words) results ∧
      dispatch arms (f.enter words.flatten before) = (arm, ·) <$> results.mapM id := by
  have hsix : f.enter words.flatten before .a6 = number := by
    have : argument (f.enter words.flatten before) 6 = f.number := by
      rw [SyscallFunction.enter, argument_setArgument (by decide), if_pos rfl]
    exact this.trans (generateSyscall_eq_ok hf).2.1
  refine ⟨arm.values.map (ArgValue.read (f.enter words.flatten before)), ?_, ?_⟩
  · refine argValues_read (generateArm_eq_ok hgenerate).2.2.1 hwords fun i hi => ?_
    rw [Nat.zero_add]
    exact argument_enter hf hcompiles hwords.flatten hi
  · rw [dispatch, hsix, find?_dispatchArms harms harm, List.mapM_map]
    rfl

/-! ## Results -/

lemma resultWrite_of_ne {type : DrvliType} (h : type ≠ .never) :
    resultWrite (some type) =
      if (splitSyscallRet type).length = 1 then .whole
      else .components (List.range (splitSyscallRet type).length) := by
  cases type with
  | never => exact absurd rfl h
  | _ => rfl

/-- A call that returns writes the registers that user code reads, in their order. -/
lemma write_eq_setArguments {arm : DispatchArm} {results : List ℕ}
    (h : generateSyscall number s = .ok f) (harm : arm.results = resultWrite s.returnType)
    (hreturns : s.returnType ≠ some .never) :
    arm.write results registers =
      setArguments id (fun i => results.getD i 0) f.outputs registers := by
  obtain ⟨-, -, -, -, houtputs⟩ := generateSyscall_eq_ok h
  rw [DispatchArm.write, harm, houtputs]
  cases hreturn : s.returnType with
  | none => rfl
  | some type =>
      have hnever : type ≠ .never := fun heq => hreturns (heq ▸ hreturn)
      have hpieces : retPieces (some type) = splitSyscallRet type := by simp [retPieces]
      rw [resultWrite_of_ne hnever, hpieces]
      by_cases hone : (splitSyscallRet type).length = 1
      · rw [if_pos hone, hone]
        rfl
      · rw [if_neg hone]

/-- **User code gets what the kernel returned**, and the registers that it does not know to be changed
are as they were. -/
lemma leave_write {arm : DispatchArm} {results : List ℕ} (h : generateSyscall number s = .ok f)
    (hcompiles : f.Compiles) (harm : arm.results = resultWrite s.returnType)
    (hreturns : s.returnType ≠ some .never) (hresults : results.length = f.outputs.length) :
    f.leave (arm.write results registers) = results ∧
      ∀ ρ, (∀ i ∈ f.outputs, argRegisters[i]? ≠ some ρ) → arm.write results registers ρ = registers ρ := by
  rw [write_eq_setArguments h harm hreturns]
  refine ⟨?_, fun ρ hρ => setArguments_of_ne hρ⟩
  obtain ⟨-, -, -, -, houtputs⟩ := generateSyscall_eq_ok h
  have hnodup : (f.outputs.map id).Nodup := by
    rw [List.map_id, houtputs]
    exact List.nodup_range
  have hread : f.leave (setArguments id (fun i => results.getD i 0) f.outputs registers) =
      f.outputs.map fun i => results.getD i 0 :=
    List.map_congr_left fun i hi => argument_setArguments hcompiles.outputs_exist hnodup i hi
  rw [houtputs, List.length_range] at hresults
  rw [hread, houtputs, ← hresults]
  refine List.ext_getElem (by simp) fun i hi hi' => ?_
  rw [List.getElem_map, List.getElem_range, List.getD_eq_getElem?_getD, List.getElem?_eq_getElem hi',
    Option.getD_some]

/-! ## Agreement -/

/-- The type of a value that is passed to a method. -/
def ArgValue.type : ArgValue → List Char
  | .capability _ => "RawCapability".toList
  | .sharedMemory _ => "Capability<SharedMemory>".toList
  | .u64 _ => "u64".toList
  | .usize _ => "usize".toList
  | .slice _ _ => "UserPtr<[u8]>".toList
  | .pointer _ => "UserPtr<u8>".toList

lemma argValue_type {used : ℕ} {type : DrvliType} {value : ArgValue}
    (h : argValue used type = .ok value) : type.rust .syscallKernelArg = .ok value.type := by
  unfold argValue at h
  split at h <;> cases h <;> rfl

lemma argValues_type {used : ℕ} {args : List (List Char × DrvliType)} {values : List ArgValue}
    (h : argValues used args = .ok values) :
    args.mapM (fun arg => do
      let type ← arg.2.rust .syscallKernelArg
      pure (arg.1, type)) = .ok ((args.map Prod.fst).zip (values.map ArgValue.type)) := by
  induction args generalizing used values with
  | nil => rfl
  | cons arg args ih =>
      rw [argValues] at h
      obtain ⟨value, hvalue, h⟩ := Checked.bind_eq_ok.mp h
      obtain ⟨rest, hrest, h⟩ := Checked.bind_eq_ok.mp h
      cases h
      rw [List.mapM_cons, argValue_type hvalue, ih hrest]
      rfl

/-- A method is declared to take what it is passed. -/
lemma generateSyscallMethod_eq_ok {arm : DispatchArm} {method : SyscallMethod}
    (h : generateSyscallMethod s = .ok method) (harm : generateArm number s = .ok arm)
    (hf : generateSyscall number s = .ok f) :
    method.name = f.name ∧ method.returns = f.returns ∧
      method.params = (s.args.map Prod.fst).zip (arm.values.map ArgValue.type) := by
  obtain ⟨params, hparams, h⟩ := Checked.bind_eq_ok.mp h
  obtain ⟨returns, hreturns, h⟩ := Checked.bind_eq_ok.mp h
  obtain ⟨params', -, hf⟩ := Checked.bind_eq_ok.mp hf
  obtain ⟨returns', hreturns', hf⟩ := Checked.bind_eq_ok.mp hf
  cases h
  cases hf
  refine ⟨rfl, Except.ok.inj (hreturns.symm.trans hreturns'), ?_⟩
  exact Except.ok.inj (hparams.symm.trans (argValues_type (generateArm_eq_ok harm).2.2.1))

/-- **The two sides of a system call agree.**  Let the functions, the arms and the trait be generated
from one description, and let a function compile.  A call of it with words for its arguments goes to
the method of the same name; the method is declared to take the types that it is passed; it gets the
values of the arguments in their order, or the first argument that is no value is the error.  If the
call can return, the function returns the words that the method did, and every register that the
compiler takes to be unchanged is. -/
theorem syscall_agreement {functions : List SyscallFunction} {arms : List DispatchArm}
    {methods : List SyscallMethod} (hfunctions : syscallFunctions d = .ok functions)
    (harms : dispatchArms d = .ok arms) (hmethods : syscallMethods d = .ok methods) {n : ℕ}
    (hs : d.syscalls[n]? = some s) (hf : functions[n]? = some f) (hcompiles : f.Compiles)
    {words : List (List ℕ)} (hwords : Fits s.args words) (before : RiscvRegisters) :
    ∃ arm method results, arms[n]? = some arm ∧ arm.handler = f.name ∧
      methods[n]? = some method ∧ method.name = f.name ∧ method.returns = f.returns ∧
      method.params = (s.args.map Prod.fst).zip (arm.values.map ArgValue.type) ∧
      List.Forall₂ (fun p r => Passes p.1.2 p.2 r) (s.args.zip words) results ∧
      dispatch arms (f.enter words.flatten before) = (arm, ·) <$> results.mapM id ∧
      (s.returnType ≠ some .never → ∀ returned registers, returned.length = f.outputs.length →
        f.leave (arm.write returned registers) = returned ∧
          ∀ ρ, (∀ i ∈ f.outputs, argRegisters[i]? ≠ some ρ) →
            arm.write returned registers ρ = registers ρ) := by
  obtain ⟨f', hf', hgenerate⟩ := mapM_zipIdx_getElem? hfunctions hs
  obtain rfl := Option.some.inj (hf.symm.trans hf')
  obtain ⟨arm, harm, hgenerateArm⟩ := mapM_zipIdx_getElem? harms hs
  obtain ⟨hn, hsn⟩ := List.getElem?_eq_some_iff.mp hs
  have hall := Checked.mapM_eq_ok.mp hmethods
  have hn' : n < methods.length := hall.length_eq ▸ hn
  have hmethod : generateSyscallMethod s = .ok methods[n] := by
    have := (List.forall₂_iff_get.mp hall).2 n hn hn'
    simpa only [List.get_eq_getElem, hsn] using this
  obtain ⟨hmethodName, hmethodReturns, hparams⟩ :=
    generateSyscallMethod_eq_ok hmethod hgenerateArm hgenerate
  obtain ⟨-, hhandler, -, hresults⟩ := generateArm_eq_ok hgenerateArm
  obtain ⟨results, hpasses, hdispatch⟩ :=
    dispatch_enter before harms harm hgenerate hgenerateArm hcompiles hwords
  exact ⟨arm, methods[n], results, harm, hhandler.trans (generateSyscall_eq_ok hgenerate).1.symm,
    List.getElem?_eq_getElem hn', hmethodName, hmethodReturns, hparams, hpasses, hdispatch,
    fun hreturns _ _ hlength => leave_write hgenerate hcompiles hresults hreturns hlength⟩

end Codegen

end Deravel
