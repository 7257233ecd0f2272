import Mathlib.Data.List.DropRight
import DeravelOs.Codegen.Types

/-!
# Parsing an interface description

`codegen/src/parse.rs`, and `fix_types` of `lib.rs`.  A description is a sequence of lines.  A line that
is not indented begins an item or is skipped; the indented lines behind it are the body of the item.
The body of a struct is read with `peek`, that of an app or interface with `next`, which takes one more
line.

* `parseMembers`, `parseBody`: the two kinds of bodies.
* `parseNext`: an item.
* `parseDrvli`: the whole description, with the names in its types resolved.
-/

namespace Deravel

namespace Codegen

/-! ## Items -/

/-- `Struct` -/
structure Struct where
  name : List Char
  members : List (List Char × DrvliType)
  deriving Repr

/-- `Method` -/
structure Method where
  name : List Char
  args : List (List Char × DrvliType)
  returnType : Option DrvliType
  deriving Repr

/-- `Stream` -/
structure Stream where
  name : List Char
  type : DrvliType
  deriving Repr

/-- `InterfaceDetails` -/
inductive InterfaceDetails
  | app (args : List (List Char × DrvliType)) (implements : Option (List Char))
  | interface
  deriving Repr

/-- `Interface` -/
structure Interface where
  name : List Char
  methods : List Method
  streams : List Stream
  details : InterfaceDetails
  deriving Repr

/-- `Syscall` -/
structure Syscall where
  name : List Char
  args : List (List Char × DrvliType)
  returnType : Option DrvliType
  deriving Repr

/-- `Drvli` -/
structure Drvli where
  interfaces : List Interface
  structs : List Struct
  syscalls : List Syscall
  deriving Repr

/-- What is pushed to one of the three lists of a `Drvli`. -/
inductive Definition
  | struct (s : Struct)
  | interface (i : Interface)
  | syscall (s : Syscall)
  deriving Repr

/-- The lists, in the order in which they are filled. -/
def Drvli.ofDefinitions (definitions : List Definition) : Drvli where
  interfaces := definitions.filterMap fun
    | .interface i => some i
    | _ => none
  structs := definitions.filterMap fun
    | .struct s => some s
    | _ => none
  syscalls := definitions.filterMap fun
    | .syscall s => some s
    | _ => none

/-! ## Lines -/

/-- `parse_type`.  The bound is enough wherever the recursion ends. -/
def parseType (src : List Char) : Checked DrvliType := parseTypeFuel (src.length + 2) src

/-- `split_once(sep).unwrap()` -/
def splitOnceUnwrap (sep : Char) (line : List Char) : Checked (List Char × List Char) :=
  match Text.splitOnce sep line with
  | some parts => pure parts
  | none => throw (.unwrap .parseDrvli)

/-- A name and a type: a member of a struct, an argument or a stream. -/
def parseNamed (line : List Char) : Checked (List Char × DrvliType) := do
  let (name, src) ← splitOnceUnwrap ' ' line
  let type ← parseType src
  pure (name, type)

/-- The arguments between two parentheses. -/
def parseArgs (args : List Char) : Checked (List (List Char × DrvliType)) :=
  ((Text.splitPair ',' ' ' args).filter (· ≠ [])).mapM parseNamed

/-- `strip_prefix(' ').map(parse_type)` -/
def parseReturnType (line : List Char) : Checked (Option DrvliType) :=
  match line.dropPrefix? [' '] with
  | some src => do
      let type ← parseType src
      pure (some type)
  | none => pure none

/-- What stands behind `func ` or `syscall `: a name, arguments and a type. -/
def parseSignature (line : List Char) :
    Checked (List Char × List (List Char × DrvliType) × Option DrvliType) := do
  let (name, line) ← splitOnceUnwrap '(' line
  let (args, line) ← splitOnceUnwrap ')' line
  let args ← parseArgs args
  let returnType ← parseReturnType line
  pure (name, args, returnType)

/-- `parse_syscall` -/
def parseSyscall (line : List Char) : Checked Syscall := do
  let (name, args, returnType) ← parseSignature line
  pure ⟨name, args, returnType⟩

/-- `char::is_whitespace` -/
def isWhitespace (c : Char) : Bool :=
  (0x9 ≤ c.toNat ∧ c.toNat ≤ 0xD) ∨ (0x2000 ≤ c.toNat ∧ c.toNat ≤ 0x200A) ∨
    c.toNat ∈ [0x20, 0x85, 0xA0, 0x1680, 0x2028, 0x2029, 0x202F, 0x205F, 0x3000]

/-- The arguments of an app, with the rest of its line. -/
def parseAppArgs (line : List Char) : Checked (List (List Char × DrvliType) × List Char) :=
  match line.dropPrefix? ['('] with
  | some line => do
      let (args, line) ← splitOnceUnwrap ')' line
      let args ← parseArgs args
      pure (args, line)
  | none => pure ([], line)

/-- What stands behind `app `. -/
def parseApp (line : List Char) : Checked (List Char × InterfaceDetails) := do
  let name := line.takeWhile fun c => c ≠ '(' ∧ c ≠ ' '
  let (args, line) ← parseAppArgs (line.dropWhile fun c => c ≠ '(' ∧ c ≠ ' ')
  let line := (line.dropWhile isWhitespace).rdropWhile isWhitespace
  pure (name, .app args (line.dropPrefix? "implements ".toList))

/-! ## Bodies -/

/-- The indentation of a body. -/
def indentation : List Char := [' ', ' ', ' ', ' ']

/-- The members of a struct, and the lines behind them. -/
def parseMembers :
    List (List Char) → Checked (List (List Char × DrvliType) × List (List Char))
  | [] => pure ([], [])
  | line :: lines =>
      match line.dropPrefix? indentation with
      | some member => do
          let member ← parseNamed member
          let (members, lines) ← parseMembers lines
          pure (member :: members, lines)
      | none => pure ([], line :: lines)

/-- What is pushed to one of the two lists of an `Interface`. -/
inductive InterfaceMember
  | method (m : Method)
  | stream (s : Stream)
  deriving Repr

/-- A line of the body of an interface.  What is neither a method nor a stream is skipped. -/
def parseInterfaceMember (line : List Char) : Checked (Option InterfaceMember) :=
  if let some line := line.dropPrefix? "func ".toList then do
    let (name, args, returnType) ← parseSignature line
    pure (some (.method ⟨name, args, returnType⟩))
  else if let some line := line.dropPrefix? "stream ".toList then do
    let (name, type) ← parseNamed line
    pure (some (.stream ⟨name, type⟩))
  else pure none

/-- The body of an interface, and the lines behind it but one: the line that ends the loop has been
taken from the iterator. -/
def parseBody : List (List Char) → Checked (List InterfaceMember × List (List Char))
  | [] => pure ([], [])
  | line :: lines =>
      match line.dropPrefix? indentation with
      | some line => do
          let member ← parseInterfaceMember line
          let (members, lines) ← parseBody lines
          pure (member.toList ++ members, lines)
      | none => pure ([], lines)

/-- An interface with these members. -/
def Interface.ofMembers (name : List Char) (details : InterfaceDetails)
    (members : List InterfaceMember) : Interface where
  name := name
  methods := members.filterMap fun
    | .method m => some m
    | _ => none
  streams := members.filterMap fun
    | .stream s => some s
    | _ => none
  details := details

/-- `parse_interface` -/
def parseInterface (name : List Char) (lines : List (List Char)) (details : InterfaceDetails) :
    Checked (Interface × List (List Char)) := do
  let (members, lines) ← parseBody lines
  pure (.ofMembers name details members, lines)

/-! ## The description -/

/-- The body of the loop of `parse_drvli`, with the lines that it leaves. -/
def parseNext (line : List Char) (lines : List (List Char)) :
    Checked (Option Definition × List (List Char)) :=
  if let some name := line.dropPrefix? "struct ".toList then do
    let (members, lines) ← parseMembers lines
    pure (some (.struct ⟨name, members⟩), lines)
  else if let some line := line.dropPrefix? "app ".toList then do
    let (name, details) ← parseApp line
    let (interface, lines) ← parseInterface name lines details
    pure (some (.interface interface), lines)
  else if let some name := line.dropPrefix? "interface ".toList then do
    let (interface, lines) ← parseInterface name lines .interface
    pure (some (.interface interface), lines)
  else if let some line := line.dropPrefix? "syscall ".toList then do
    let syscall ← parseSyscall line
    pure (some (.syscall syscall), lines)
  else pure (none, lines)

/-- So many turns of the loop of `parse_drvli`. -/
def parseLines : (fuel : ℕ) → List (List Char) → Checked (List Definition)
  | 0, _ => throw .diverges
  | _ + 1, [] => pure []
  | fuel + 1, line :: lines => do
      let (definition, lines) ← parseNext line lines
      let definitions ← parseLines fuel lines
      pure (definition.toList ++ definitions)

/-! ## Types -/

mutual

/-- `fix_types` of a type: a name that is not known is one of a struct or of an interface. -/
def DrvliType.fixTypes (interfaces structs : List (List Char)) : DrvliType → Checked DrvliType
  | .array inner => do
      let inner ← inner.fixTypes interfaces structs
      pure (.array inner)
  | .constArray inner => do
      let inner ← inner.fixTypes interfaces structs
      pure (.constArray inner)
  | .constPtr inner => do
      let inner ← inner.fixTypes interfaces structs
      pure (.constPtr inner)
  | .option inner => do
      let inner ← inner.fixTypes interfaces structs
      pure (.option inner)
  | .ptr inner => do
      let inner ← inner.fixTypes interfaces structs
      pure (.ptr inner)
  | .tuple types => do
      let types ← fixTypesList interfaces structs types
      pure (.tuple types)
  | .unknown name =>
      if name ∈ structs then pure (.struct name)
      else if name ∈ interfaces then pure (.typedCapability name)
      else throw (.explicit .parseDrvli)
  | type => pure type

/-- `fix_types` of the components of a tuple. -/
def fixTypesList (interfaces structs : List (List Char)) :
    List DrvliType → Checked (List DrvliType)
  | [] => pure []
  | type :: types => do
      let type ← type.fixTypes interfaces structs
      let types ← fixTypesList interfaces structs types
      pure (type :: types)

end

section FixTypes

variable (interfaces structs : List (List Char))

/-- `fix_types` of arguments or members. -/
def fixNamed (named : List (List Char × DrvliType)) : Checked (List (List Char × DrvliType)) :=
  named.mapM fun p => do
    let type ← p.2.fixTypes interfaces structs
    pure (p.1, type)

/-- `fix_types` of a return type. -/
def fixReturnType : Option DrvliType → Checked (Option DrvliType)
  | none => pure none
  | some type => do
      let type ← type.fixTypes interfaces structs
      pure (some type)

/-- `fix_types` -/
def Method.fixTypes (m : Method) : Checked Method := do
  let args ← fixNamed interfaces structs m.args
  let returnType ← fixReturnType interfaces structs m.returnType
  pure ⟨m.name, args, returnType⟩

/-- `fix_types` -/
def Stream.fixTypes (s : Stream) : Checked Stream := do
  let type ← s.type.fixTypes interfaces structs
  pure ⟨s.name, type⟩

/-- `fix_types` -/
def InterfaceDetails.fixTypes : InterfaceDetails → Checked InterfaceDetails
  | .app args implements => do
      let args ← fixNamed interfaces structs args
      pure (.app args implements)
  | .interface => pure .interface

/-- `fix_types` -/
def Interface.fixTypes (i : Interface) : Checked Interface := do
  let methods ← i.methods.mapM (Method.fixTypes interfaces structs)
  let streams ← i.streams.mapM (Stream.fixTypes interfaces structs)
  let details ← i.details.fixTypes interfaces structs
  pure ⟨i.name, methods, streams, details⟩

/-- `fix_types` -/
def Struct.fixTypes (s : Struct) : Checked Struct := do
  let members ← fixNamed interfaces structs s.members
  pure ⟨s.name, members⟩

/-- `fix_types` -/
def Syscall.fixTypes (s : Syscall) : Checked Syscall := do
  let args ← fixNamed interfaces structs s.args
  let returnType ← fixReturnType interfaces structs s.returnType
  pure ⟨s.name, args, returnType⟩

end FixTypes

/-- `fix_types`, with the names of the interfaces and structs of the description. -/
def Drvli.fixTypes (d : Drvli) : Checked Drvli := do
  let interfaceNames := d.interfaces.map Interface.name
  let structNames := d.structs.map Struct.name
  let interfaces ← d.interfaces.mapM (Interface.fixTypes interfaceNames structNames)
  let structs ← d.structs.mapM (Struct.fixTypes interfaceNames structNames)
  let syscalls ← d.syscalls.mapM (Syscall.fixTypes interfaceNames structNames)
  pure ⟨interfaces, structs, syscalls⟩

/-- `parse_drvli` -/
def parseDrvli (text : List Char) : Checked Drvli := do
  let definitions ← parseLines ((Text.lines text).length + 1) (Text.lines text)
  (Drvli.ofDefinitions definitions).fixTypes

end Codegen

end Deravel
