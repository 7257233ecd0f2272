import DeravelOs.Codegen.Parse

/-!
# What is written in Rust

The part of `codegen/src/lib.rs` that turns names and types of a description into Rust, for the build
scripts of `kernel` and `kernel-api`.  A type is not written the same way everywhere, and not every type
can be written everywhere.

* `camelCase`, `rustEscapeName`: names.
* `DrvliType.rust`: types, each in a context.
* `splitSyscallArg`, `splitSyscallRet`: the pieces of a type that go to registers of their own.
-/

namespace Deravel

namespace Codegen

/-! ## Names -/

/-- `rust_escape_name` -/
def rustEscapeName (name : List Char) : List Char :=
  if name = "type".toList then "type_".toList
  else if name = "yield".toList then "yield_".toList
  else name

/-- What `camel_case` does with what stands between two underscores: the first byte becomes a capital
letter, and the rest has to begin behind it. -/
def camelSegment : List Char → Checked (List Char)
  | [] => throw (.indexOutOfBounds .camelCase)
  | c :: rest => if c.toNat < 0x80 then pure (c.toUpper :: rest) else throw (.explicit .camelCase)

/-- `camel_case` -/
def camelCase (name : List Char) : Checked (List Char) := do
  let segments ← (name.splitOn '_').mapM camelSegment
  pure segments.flatten

/-! ## Types -/

/-- `RustTypeCtx` -/
inductive RustTypeCtx
  | arg
  | member
  | normalRet
  | grantableRet
  | syscallArg
  | syscallKernelArg
  | syscallRet
  | stream
  deriving DecidableEq, Repr

/-- Arrays are written in one context only. -/
def userSliceType (ctx : RustTypeCtx) (inner : Checked (List Char)) : Checked (List Char) :=
  if ctx = .syscallKernelArg then do
    let inner ← inner
    pure ("UserPtr<[".toList ++ inner ++ "]>".toList)
  else throw (.unimplemented .rustType)

/-- `Type::rust` -/
def DrvliType.rust (ctx : RustTypeCtx) : DrvliType → Checked (List Char)
  | .array inner => userSliceType ctx (inner.rust ctx)
  | .constArray inner => userSliceType ctx (inner.rust ctx)
  | .bytes =>
      match ctx with
      | .arg => pure "&[u8]".toList
      | .normalRet | .grantableRet => pure "Vec<u8>".toList
      | _ => throw (.unimplemented .rustType)
  | .constPtr inner => do
      let inner ← inner.rust ctx
      pure ("*const ".toList ++ inner)
  | .i8 => pure "i8".toList
  | .i16 => pure "i16".toList
  | .i32 => pure "i32".toList
  | .i64 => pure "i64".toList
  | .isize => pure "isize".toList
  | .never => pure "!".toList
  | .option inner => do
      let inner ← inner.rust ctx
      pure ("Option<".toList ++ inner ++ ">".toList)
  | .ptr inner => do
      let inner ← inner.rust ctx
      if ctx = .syscallKernelArg then pure ("UserPtr<".toList ++ inner ++ ">".toList)
      else pure ("*mut ".toList ++ inner)
  | .processId =>
      if ctx = .syscallRet then pure "ProcessId".toList else throw (.unimplemented .rustType)
  | .processSpawner name => do
      let name ← camelCase name
      pure ("Capability<".toList ++ name ++ "Spawner>".toList)
  | .sharedMemory => pure "Capability<SharedMemory>".toList
  | .struct name => camelCase name
  | .typedCapability name => do
      let name ← camelCase name
      pure ("Capability<".toList ++ name ++ ">".toList)
  | .text =>
      match ctx with
      | .arg => pure "&str".toList
      | .normalRet | .grantableRet => pure "String".toList
      | _ => throw (.unimplemented .rustType)
  | .u8 => pure "u8".toList
  | .u16 => pure "u16".toList
  | .u32 => pure "u32".toList
  | .u64 => pure "u64".toList
  | .untypedCapability => pure "RawCapability".toList
  | .untypedPointer => pure "*mut ()".toList
  | .usize => pure "usize".toList
  | .tuple _ => throw (.unimplemented .rustType)
  | .unknown _ => throw (.unimplemented .rustType)

/-- `Type::rust_borrow_or_copy` -/
def DrvliType.rustBorrowOrCopy : DrvliType → List Char
  | .text | .bytes => ['&']
  | _ => []

/-! ## Registers -/

/-- `split_syscall_arg` -/
def splitSyscallArg : DrvliType → List (List Char × DrvliType)
  | .array inner => [("_ptr".toList, .ptr inner), ("_size".toList, .usize)]
  | .constArray inner => [("_ptr".toList, .constPtr inner), ("_size".toList, .usize)]
  | type => [([], type)]

/-- `split_syscall_ret` -/
def splitSyscallRet : DrvliType → List DrvliType
  | .tuple types => types
  | type => [type]

end Codegen

end Deravel
