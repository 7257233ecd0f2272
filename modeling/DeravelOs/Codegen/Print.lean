import DeravelOs.Codegen.Layout

/-!
# Writing an interface description

A description can be written in the format that `parse_drvli` reads, and is read back as it was.  The
names in the types are written as they are: whether such a name is one of a struct or of an interface
is found again by `fix_types`.

* `DrvliType.print`, `Definition.item`, `printDrvli`: how a description is written.
* `DrvliType.Plain`, `WellFormed`: what can be written.
* `parseType_print`, `meaning_item`: types and items are read back.
* `parseDrvli_print_iff`: so are descriptions, in whatever order the items are written.
-/

namespace Deravel

namespace Codegen

/-! ## Printing -/

mutual

/-- How a type is written. -/
def DrvliType.print : DrvliType → List Char
  | .array inner => "array ".toList ++ inner.print
  | .bytes => "bytes".toList
  | .constArray inner => "const_array ".toList ++ inner.print
  | .constPtr inner => "const_ptr ".toList ++ inner.print
  | .i8 => "i8".toList
  | .i16 => "i16".toList
  | .i32 => "i32".toList
  | .i64 => "i64".toList
  | .isize => "isize".toList
  | .never => "never".toList
  | .option inner => "option ".toList ++ inner.print
  | .processId => "pid".toList
  | .processSpawner interface => "process_spawner ".toList ++ interface
  | .ptr inner => "ptr ".toList ++ inner.print
  | .sharedMemory => "shared_memory".toList
  | .struct name => name
  | .text => "text".toList
  | .tuple types => [',', ' '].intercalate (printTypes types)
  | .typedCapability name => name
  | .u8 => "u8".toList
  | .u16 => "u16".toList
  | .u32 => "u32".toList
  | .u64 => "u64".toList
  | .unknown src => src
  | .untypedCapability => "capability".toList
  | .untypedPointer => "ptr".toList
  | .usize => "usize".toList

/-- How the components of a tuple are written. -/
def printTypes : List DrvliType → List (List Char)
  | [] => []
  | type :: types => type.print :: printTypes types

end

/-- A name and a type. -/
def printNamed (p : List Char × DrvliType) : List Char := p.1 ++ ' ' :: p.2.print

/-- Arguments, without the parentheses. -/
def printArgs (args : List (List Char × DrvliType)) : List Char :=
  [',', ' '].intercalate (args.map printNamed)

/-- A return type, with what separates it from the arguments. -/
def printReturnType : Option DrvliType → List Char
  | some type => ' ' :: type.print
  | none => []

/-- What stands behind `func ` or `syscall `. -/
def printSignature (name : List Char) (args : List (List Char × DrvliType))
    (returnType : Option DrvliType) : List Char :=
  name ++ '(' :: (printArgs args ++ ')' :: printReturnType returnType)

/-- The line of a method. -/
def Method.print (m : Method) : List Char :=
  "func ".toList ++ printSignature m.name m.args m.returnType

/-- The line of a stream. -/
def Stream.print (s : Stream) : List Char := "stream ".toList ++ printNamed (s.name, s.type)

/-- What an app implements. -/
def printImplements : Option (List Char) → List Char
  | some interface => " implements ".toList ++ interface
  | none => []

/-- What stands behind `app `. -/
def printApp (name : List Char) (args : List (List Char × DrvliType))
    (implements : Option (List Char)) : List Char :=
  name ++ '(' :: (printArgs args ++ ')' :: printImplements implements)

/-- The lines of the body of an interface. -/
def Interface.body (i : Interface) : List (List Char) :=
  i.methods.map Method.print ++ i.streams.map Stream.print

/-- How an interface or an app is written. -/
def Interface.item (i : Interface) : Item :=
  match i.details with
  | .app args implements => .app (printApp i.name args implements) i.body
  | .interface => .interface i.name i.body

/-- How a definition is written. -/
def Definition.item : Definition → Item
  | .struct s => .struct s.name (s.members.map printNamed)
  | .interface i => i.item
  | .syscall s => .syscall (printSignature s.name s.args s.returnType)

/-- The text of a description in which each item is followed by so many blank lines. -/
def printDrvli (layout : List (Definition × ℕ)) : List Char :=
  Text.unlines (layoutLines (layout.map fun p => (p.1.item, p.2)))

/-! ## What can be written -/

/-- A name that the format has room for. -/
def IsIdentifier (name : List Char) : Prop :=
  name ≠ [] ∧ ∀ c ∈ name, isWhitespace c = false ∧ c ∉ [',', '(', ')']

/-- Such a name that is not one of the types. -/
def IsTypeName (name : List Char) : Prop := IsIdentifier name ∧ namedTypes.lookup name = none

/-- The names of the interfaces that are defined. -/
def interfaceNames (definitions : List Definition) : List (List Char) :=
  (Drvli.ofDefinitions definitions).interfaces.map Interface.name

/-- The names of the structs that are defined. -/
def structNames (definitions : List Definition) : List (List Char) :=
  (Drvli.ofDefinitions definitions).structs.map Struct.name

section WellFormed

variable (interfaces structs : List (List Char))

/-- A type that is no tuple, with the names of interfaces and structs.  A struct has the precedence. -/
def DrvliType.Plain : DrvliType → Prop
  | .array inner => inner.Plain
  | .constArray inner => inner.Plain
  | .constPtr inner => inner.Plain
  | .option inner => inner.Plain
  | .processSpawner interface => IsIdentifier interface
  | .ptr inner => inner.Plain
  | .struct name => IsTypeName name ∧ name ∈ structs
  | .tuple _ => False
  | .typedCapability name => IsTypeName name ∧ name ∈ interfaces ∧ name ∉ structs
  | .unknown _ => False
  | _ => True

/-- A type that can be returned: it may be a tuple. -/
def DrvliType.Returnable (type : DrvliType) : Prop :=
  type.Plain interfaces structs ∨
    ∃ types, type = .tuple types ∧ 2 ≤ types.length ∧ ∀ t ∈ types, t.Plain interfaces structs

/-- Arguments or members. -/
def NamedWellFormed (named : List (List Char × DrvliType)) : Prop :=
  ∀ p ∈ named, IsIdentifier p.1 ∧ p.2.Plain interfaces structs

/-- A name with arguments and a return type. -/
def SignatureWellFormed (name : List Char) (args : List (List Char × DrvliType))
    (returnType : Option DrvliType) : Prop :=
  IsIdentifier name ∧ NamedWellFormed interfaces structs args ∧
    ∀ type ∈ returnType, type.Returnable interfaces structs

/-- What can be written of an app. -/
def InterfaceDetails.WellFormed : InterfaceDetails → Prop
  | .app args implements =>
      NamedWellFormed interfaces structs args ∧ ∀ name ∈ implements, IsIdentifier name
  | .interface => True

/-- A definition that can be written. -/
def Definition.WellFormed : Definition → Prop
  | .struct s => IsIdentifier s.name ∧ NamedWellFormed interfaces structs s.members
  | .interface i =>
      IsIdentifier i.name ∧
        (∀ m ∈ i.methods, SignatureWellFormed interfaces structs m.name m.args m.returnType) ∧
        (∀ s ∈ i.streams, IsIdentifier s.name ∧ s.type.Plain interfaces structs) ∧
        i.details.WellFormed interfaces structs
  | .syscall s => SignatureWellFormed interfaces structs s.name s.args s.returnType

end WellFormed

/-- A description that can be written: the names in its types are defined in it. -/
def WellFormed (definitions : List Definition) : Prop :=
  ∀ d ∈ definitions, d.WellFormed (interfaceNames definitions) (structNames definitions)

variable {interfaces structs : List (List Char)} {name line : List Char} {t : DrvliType}
  {fuel : ℕ}

/-! ## Checking what can be written -/

instance (name : List Char) : Decidable (IsIdentifier name) := inferInstanceAs (Decidable (_ ∧ _))

instance (name : List Char) : Decidable (IsTypeName name) :=
  inferInstanceAs (Decidable (IsIdentifier name ∧ (namedTypes.lookup name) = none))

instance DrvliType.decidablePlain (interfaces structs : List (List Char)) :
    ∀ t : DrvliType, Decidable (t.Plain interfaces structs)
  | .array inner => decidablePlain interfaces structs inner
  | .constArray inner => decidablePlain interfaces structs inner
  | .constPtr inner => decidablePlain interfaces structs inner
  | .option inner => decidablePlain interfaces structs inner
  | .ptr inner => decidablePlain interfaces structs inner
  | .processSpawner interface => inferInstanceAs (Decidable (IsIdentifier interface))
  | .struct name => inferInstanceAs (Decidable (IsTypeName name ∧ name ∈ structs))
  | .typedCapability name =>
      inferInstanceAs (Decidable (IsTypeName name ∧ name ∈ interfaces ∧ name ∉ structs))
  | .tuple _ => inferInstanceAs (Decidable False)
  | .unknown _ => inferInstanceAs (Decidable False)
  | .bytes | .i8 | .i16 | .i32 | .i64 | .isize | .never | .processId | .sharedMemory | .text | .u8
  | .u16 | .u32 | .u64 | .untypedCapability | .untypedPointer | .usize =>
      inferInstanceAs (Decidable True)

/-- The components of a tuple. -/
def DrvliType.components : DrvliType → List DrvliType
  | .tuple types => types
  | _ => []

lemma DrvliType.returnable_iff :
    t.Returnable interfaces structs ↔ t.Plain interfaces structs ∨
      2 ≤ t.components.length ∧ ∀ c ∈ t.components, c.Plain interfaces structs := by
  refine or_congr_right ⟨?_, ?_⟩
  · rintro ⟨types, rfl, h⟩
    exact h
  · rintro ⟨hlength, hall⟩
    cases t with
    | tuple types => exact ⟨types, rfl, hlength, hall⟩
    | _ => exact absurd hlength (Nat.not_succ_le_zero 1)

instance (interfaces structs : List (List Char)) (t : DrvliType) :
    Decidable (t.Returnable interfaces structs) :=
  decidable_of_iff _ DrvliType.returnable_iff.symm

instance (interfaces structs : List (List Char)) (named : List (List Char × DrvliType)) :
    Decidable (NamedWellFormed interfaces structs named) :=
  inferInstanceAs (Decidable (∀ p ∈ named, IsIdentifier p.1 ∧ p.2.Plain interfaces structs))

instance (interfaces structs : List (List Char)) (name : List Char)
    (args : List (List Char × DrvliType)) (returnType : Option DrvliType) :
    Decidable (SignatureWellFormed interfaces structs name args returnType) :=
  inferInstanceAs (Decidable (IsIdentifier name ∧ NamedWellFormed interfaces structs args ∧
    ∀ type ∈ returnType, type.Returnable interfaces structs))

instance (interfaces structs : List (List Char)) :
    ∀ details : InterfaceDetails, Decidable (details.WellFormed interfaces structs)
  | .app args implements =>
      inferInstanceAs (Decidable
        (NamedWellFormed interfaces structs args ∧ ∀ name ∈ implements, IsIdentifier name))
  | .interface => inferInstanceAs (Decidable True)

instance (interfaces structs : List (List Char)) :
    ∀ d : Definition, Decidable (d.WellFormed interfaces structs)
  | .struct s =>
      inferInstanceAs (Decidable
        (IsIdentifier s.name ∧ NamedWellFormed interfaces structs s.members))
  | .interface i =>
      inferInstanceAs (Decidable (IsIdentifier i.name ∧
        (∀ m ∈ i.methods, SignatureWellFormed interfaces structs m.name m.args m.returnType) ∧
        (∀ s ∈ i.streams, IsIdentifier s.name ∧ s.type.Plain interfaces structs) ∧
        i.details.WellFormed interfaces structs))
  | .syscall s =>
      inferInstanceAs (Decidable
        (SignatureWellFormed interfaces structs s.name s.args s.returnType))

instance (definitions : List Definition) : Decidable (WellFormed definitions) :=
  inferInstanceAs (Decidable (∀ d ∈ definitions,
    d.WellFormed (interfaceNames definitions) (structNames definitions)))

instance decidableSpaced : ∀ layout : List (Item × ℕ), Decidable (Spaced layout)
  | [] => inferInstanceAs (Decidable True)
  | [_] => inferInstanceAs (Decidable True)
  | (item, gap) :: next :: rest =>
      let _ := decidableSpaced (next :: rest)
      inferInstanceAs (Decidable ((item.takesLine → gap ≠ 0) ∧ Spaced (next :: rest)))

/-! ## Words in front of types -/

lemma DrvliType.print_array : (DrvliType.array t).print = "array ".toList ++ t.print := rfl

lemma DrvliType.print_constArray : (DrvliType.constArray t).print = "const_array ".toList ++ t.print := rfl

lemma DrvliType.print_constPtr : (DrvliType.constPtr t).print = "const_ptr ".toList ++ t.print := rfl

lemma DrvliType.print_option : (DrvliType.option t).print = "option ".toList ++ t.print := rfl

lemma DrvliType.print_ptr : (DrvliType.ptr t).print = "ptr ".toList ++ t.print := rfl

/-! ## Characters -/

/-- A character that may stand in a type. -/
abbrev Inner (c : Char) : Prop := c ∉ [',', '(', ')', '\n', '\r']

lemma IsIdentifier.inner (h : IsIdentifier name) : ∀ c ∈ name, Inner c := by
  intro c hc hmem
  obtain ⟨hspace, hpunctuation⟩ := h.2 c hc
  simp only [List.mem_cons, List.not_mem_nil, or_false] at hmem hpunctuation
  rcases hmem with h | h | h | rfl | rfl
  · exact hpunctuation (Or.inl h)
  · exact hpunctuation (Or.inr (Or.inl h))
  · exact hpunctuation (Or.inr (Or.inr h))
  · exact absurd hspace (by decide)
  · exact absurd hspace (by decide)

lemma IsIdentifier.noSpace (h : IsIdentifier name) : ' ' ∉ name := fun hmem =>
  absurd (h.2 ' ' hmem).1 (by decide)

lemma inner_append {start text : List Char} (hstart : ∀ c ∈ start, Inner c)
    (htext : ∀ c ∈ text, Inner c) : ∀ c ∈ start ++ text, Inner c := by
  intro c hc
  rcases List.mem_append.mp hc with hc | hc
  · exact hstart c hc
  · exact htext c hc

lemma DrvliType.print_inner : ∀ {t : DrvliType}, t.Plain interfaces structs →
    ∀ c ∈ t.print, Inner c
  | .array inner, h => inner_append (by decide) (print_inner (t := inner) h)
  | .bytes, _ => by decide
  | .constArray inner, h => inner_append (by decide) (print_inner (t := inner) h)
  | .constPtr inner, h => inner_append (by decide) (print_inner (t := inner) h)
  | .i8, _ => by decide
  | .i16, _ => by decide
  | .i32, _ => by decide
  | .i64, _ => by decide
  | .isize, _ => by decide
  | .never, _ => by decide
  | .option inner, h => inner_append (by decide) (print_inner (t := inner) h)
  | .processId, _ => by decide
  | .processSpawner _, h => inner_append (by decide) (IsIdentifier.inner h)
  | .ptr inner, h => inner_append (by decide) (print_inner (t := inner) h)
  | .sharedMemory, _ => by decide
  | .struct _, h => h.1.1.inner
  | .text, _ => by decide
  | .tuple _, h => h.elim
  | .typedCapability _, h => h.1.1.inner
  | .u8, _ => by decide
  | .u16, _ => by decide
  | .u32, _ => by decide
  | .u64, _ => by decide
  | .unknown _, h => h.elim
  | .untypedCapability, _ => by decide
  | .untypedPointer, _ => by decide
  | .usize, _ => by decide

lemma DrvliType.print_noComma (h : t.Plain interfaces structs) : ',' ∉ t.print := fun hmem =>
  DrvliType.print_inner h ',' hmem (by decide)

/-! ## Types -/

/-- A prefix with a space is none of a name without one. -/
lemma dropPrefix_name (hname : ' ' ∉ name) {start : List Char} (hstart : ' ' ∈ start) :
    name.dropPrefix? start = none := by
  cases h : name.dropPrefix? start with
  | none => rfl
  | some rest =>
      obtain ⟨front, rfl, hfront⟩ := List.dropPrefix?_eq_some_iff.mp h
      obtain rfl := eq_of_beq hfront
      exact absurd (List.mem_append_left _ hstart) hname

/-- A name that is not one of the types is not known. -/
lemma parseTypeFuel_name (h : IsTypeName name) : parseTypeFuel (fuel + 1) name = .ok (.unknown name) := by
  have hcomma : ',' ∉ name := fun hmem => h.1.inner ',' hmem (by decide)
  have hprefix : ∀ start : List Char, ' ' ∈ start → name.dropPrefix? start = none := fun _ =>
    dropPrefix_name h.1.noSpace
  rw [parseTypeFuel, if_neg hcomma, hprefix "array ".toList (by decide),
    hprefix "const_array ".toList (by decide), hprefix "const_ptr ".toList (by decide),
    hprefix "option ".toList (by decide), hprefix "process_spawner ".toList (by decide),
    hprefix "ptr ".toList (by decide), h.2]
  rfl

/-- The words that can stand in front of a type. -/
def wrappers : List (List Char × (DrvliType → DrvliType)) :=
  [("array ".toList, .array), ("const_array ".toList, .constArray), ("const_ptr ".toList, .constPtr),
    ("option ".toList, .option), ("ptr ".toList, .ptr)]

lemma parseTypeFuel_wrapper {word : List Char} {wrap : DrvliType → DrvliType}
    (h : (word, wrap) ∈ wrappers) (hcomma : ',' ∉ line) :
    parseTypeFuel (fuel + 1) (word ++ line) = (do
      let type ← parseTypeFuel fuel line
      pure (wrap type)) := by
  have hword : ∀ p ∈ wrappers, ',' ∉ p.1 := by decide
  have hcomma' : ',' ∉ word ++ line := by
    rw [List.mem_append]
    exact not_or.mpr ⟨hword _ h, hcomma⟩
  rw [parseTypeFuel, if_neg hcomma']
  simp only [wrappers, List.mem_cons, Prod.mk.injEq, List.not_mem_nil, or_false] at h
  rcases h with ⟨rfl, rfl⟩ | ⟨rfl, rfl⟩ | ⟨rfl, rfl⟩ | ⟨rfl, rfl⟩ | ⟨rfl, rfl⟩
  · rw [dropPrefix_append]
  · have harray : ("const_array ".toList ++ line).dropPrefix? "array ".toList = none := rfl
    rw [harray, dropPrefix_append]
  · have harray : ("const_ptr ".toList ++ line).dropPrefix? "array ".toList = none := rfl
    have hconstarray : ("const_ptr ".toList ++ line).dropPrefix? "const_array ".toList = none := rfl
    rw [harray, hconstarray, dropPrefix_append]
  · have harray : ("option ".toList ++ line).dropPrefix? "array ".toList = none := rfl
    have hconstarray : ("option ".toList ++ line).dropPrefix? "const_array ".toList = none := rfl
    have hconstptr : ("option ".toList ++ line).dropPrefix? "const_ptr ".toList = none := rfl
    rw [harray, hconstarray, hconstptr, dropPrefix_append]
  · have harray : ("ptr ".toList ++ line).dropPrefix? "array ".toList = none := rfl
    have hconstarray : ("ptr ".toList ++ line).dropPrefix? "const_array ".toList = none := rfl
    have hconstptr : ("ptr ".toList ++ line).dropPrefix? "const_ptr ".toList = none := rfl
    have hoption : ("ptr ".toList ++ line).dropPrefix? "option ".toList = none := rfl
    have hprocessspawner : ("ptr ".toList ++ line).dropPrefix? "process_spawner ".toList = none := rfl
    rw [harray, hconstarray, hconstptr, hoption, hprocessspawner, dropPrefix_append]

lemma parseTypeFuel_processSpawner (hcomma : ',' ∉ name) :
    parseTypeFuel (fuel + 1) ("process_spawner ".toList ++ name) = .ok (.processSpawner name) := by
  have hcomma' : ',' ∉ "process_spawner ".toList ++ name := by
    rw [List.mem_append]
    exact not_or.mpr ⟨by decide, hcomma⟩
  have harray : ("process_spawner ".toList ++ name).dropPrefix? "array ".toList = none := rfl
  have hconstarray : ("process_spawner ".toList ++ name).dropPrefix? "const_array ".toList = none :=
    rfl
  have hconstptr : ("process_spawner ".toList ++ name).dropPrefix? "const_ptr ".toList = none := rfl
  have hoption : ("process_spawner ".toList ++ name).dropPrefix? "option ".toList = none := rfl
  rw [parseTypeFuel, if_neg hcomma', harray, hconstarray, hconstptr, hoption, dropPrefix_append]
  rfl

/-- What stands behind a prefix needs less fuel. -/
lemma length_lt_of_append {start text : List Char} (hstart : start ≠ [])
    (h : (start ++ text).length < fuel + 1) : text.length < fuel := by
  have hpos := List.length_pos_iff_ne_nil.mpr hstart
  rw [List.length_append] at h
  omega

/-- A type behind a word is read back if the type is. -/
lemma parseTypeFuel_wrapped {word : List Char} {wrap : DrvliType → DrvliType}
    (h : (word, wrap) ∈ wrappers) (ht : t.Plain interfaces structs)
    (hfix : ∀ raw, raw.fixTypes interfaces structs = .ok t →
      (wrap raw).fixTypes interfaces structs = .ok (wrap t))
    (hread : ∃ raw, parseTypeFuel fuel t.print = .ok raw ∧ raw.fixTypes interfaces structs = .ok t) :
    ∃ raw, parseTypeFuel (fuel + 1) (word ++ t.print) = .ok raw ∧
      raw.fixTypes interfaces structs = .ok (wrap t) := by
  obtain ⟨raw, hraw, hresolved⟩ := hread
  refine ⟨wrap raw, ?_, hfix raw hresolved⟩
  rw [parseTypeFuel_wrapper h (DrvliType.print_noComma ht), hraw]
  rfl

/-- **A type is read back**, once its names are resolved. -/
theorem parseTypeFuel_print (h : t.Plain interfaces structs) (hfuel : t.print.length < fuel) :
    ∃ raw, parseTypeFuel fuel t.print = .ok raw ∧ raw.fixTypes interfaces structs = .ok t := by
  induction fuel generalizing t with
  | zero => exact absurd hfuel (Nat.not_lt_zero _)
  | succ fuel ih =>
      cases t with
      | array inner =>
          rw [DrvliType.print_array] at hfuel ⊢
          refine parseTypeFuel_wrapped (by simp [wrappers]) h (fun raw hraw => ?_)
            (ih h (length_lt_of_append (by decide) hfuel))
          rw [DrvliType.fixTypes, hraw]
          rfl
      | bytes => exact ⟨.bytes, rfl, rfl⟩
      | constArray inner =>
          rw [DrvliType.print_constArray] at hfuel ⊢
          refine parseTypeFuel_wrapped (by simp [wrappers]) h (fun raw hraw => ?_)
            (ih h (length_lt_of_append (by decide) hfuel))
          rw [DrvliType.fixTypes, hraw]
          rfl
      | constPtr inner =>
          rw [DrvliType.print_constPtr] at hfuel ⊢
          refine parseTypeFuel_wrapped (by simp [wrappers]) h (fun raw hraw => ?_)
            (ih h (length_lt_of_append (by decide) hfuel))
          rw [DrvliType.fixTypes, hraw]
          rfl
      | i8 => exact ⟨.i8, rfl, rfl⟩
      | i16 => exact ⟨.i16, rfl, rfl⟩
      | i32 => exact ⟨.i32, rfl, rfl⟩
      | i64 => exact ⟨.i64, rfl, rfl⟩
      | isize => exact ⟨.isize, rfl, rfl⟩
      | never => exact ⟨.never, rfl, rfl⟩
      | option inner =>
          rw [DrvliType.print_option] at hfuel ⊢
          refine parseTypeFuel_wrapped (by simp [wrappers]) h (fun raw hraw => ?_)
            (ih h (length_lt_of_append (by decide) hfuel))
          rw [DrvliType.fixTypes, hraw]
          rfl
      | processId => exact ⟨.processId, rfl, rfl⟩
      | processSpawner interface =>
          have hcomma : ',' ∉ interface := fun hmem => IsIdentifier.inner h ',' hmem (by decide)
          exact ⟨.processSpawner interface, parseTypeFuel_processSpawner hcomma, rfl⟩
      | ptr inner =>
          rw [DrvliType.print_ptr] at hfuel ⊢
          refine parseTypeFuel_wrapped (by simp [wrappers]) h (fun raw hraw => ?_)
            (ih h (length_lt_of_append (by decide) hfuel))
          rw [DrvliType.fixTypes, hraw]
          rfl
      | sharedMemory => exact ⟨.sharedMemory, rfl, rfl⟩
      | struct name => exact ⟨.unknown name, parseTypeFuel_name h.1, if_pos h.2⟩
      | text => exact ⟨.text, rfl, rfl⟩
      | tuple types => exact h.elim
      | typedCapability name =>
          exact ⟨.unknown name, parseTypeFuel_name h.1, (if_neg h.2.2).trans (if_pos h.2.1)⟩
      | u8 => exact ⟨.u8, rfl, rfl⟩
      | u16 => exact ⟨.u16, rfl, rfl⟩
      | u32 => exact ⟨.u32, rfl, rfl⟩
      | u64 => exact ⟨.u64, rfl, rfl⟩
      | unknown src => exact h.elim
      | untypedCapability => exact ⟨.untypedCapability, rfl, rfl⟩
      | untypedPointer => exact ⟨.untypedPointer, rfl, rfl⟩
      | usize => exact ⟨.usize, rfl, rfl⟩

lemma parseType_plain (h : t.Plain interfaces structs) :
    ∃ raw, parseType t.print = .ok raw ∧ raw.fixTypes interfaces structs = .ok t :=
  parseTypeFuel_print h (by omega)

/-- What is read back element by element is read back; `e` is what the reader puts around it. -/
lemma mapM_readBack {α β γ : Type} (e : β → γ) {f : α → Checked γ} {g : β → Checked α} {l : List α}
    (h : ∀ a ∈ l, ∃ b, f a = .ok (e b) ∧ g b = .ok a) :
    ∃ bs : List β, l.mapM f = .ok (bs.map e) ∧ bs.mapM g = .ok l := by
  induction l with
  | nil => exact ⟨[], rfl, rfl⟩
  | cons a l ih =>
      obtain ⟨⟨b, hb, ha⟩, hrest⟩ := List.forall_mem_cons.mp h
      obtain ⟨bs, hbs, hl⟩ := ih hrest
      refine ⟨b :: bs, ?_, ?_⟩
      · rw [List.mapM_cons, hb, Checked.ok_bind, hbs]
        rfl
      · rw [List.mapM_cons, ha, Checked.ok_bind, hl]
        rfl

lemma printTypes_eq (types : List DrvliType) : printTypes types = types.map DrvliType.print := by
  induction types with
  | nil => rfl
  | cons t types ih => exact congrArg (t.print :: ·) ih

lemma fixTypesList_eq (types : List DrvliType) :
    fixTypesList interfaces structs types = types.mapM (DrvliType.fixTypes interfaces structs) := by
  induction types with
  | nil => rfl
  | cons t types ih => rw [fixTypesList, List.mapM_cons, ih]

/-- A tuple has its components between its commas. -/
lemma parseType_tuple {types : List DrvliType} (hlength : 2 ≤ types.length)
    (h : ∀ t ∈ types, t.Plain interfaces structs) :
    ∃ raw, parseType (DrvliType.tuple types).print = .ok raw ∧
      raw.fixTypes interfaces structs = .ok (.tuple types) := by
  have hprint : (DrvliType.tuple types).print =
      [',', ' '].intercalate (types.map DrvliType.print) := by
    rw [← printTypes_eq]
    rfl
  have hpieces : Text.splitPair ',' ' ' (DrvliType.tuple types).print =
      types.map DrvliType.print := by
    rw [hprint]
    refine Text.splitPair_intercalate ?_ ?_
    · exact fun hnil => by simp [List.map_eq_nil_iff.mp hnil] at hlength
    · intro piece hpiece
      obtain ⟨t, ht, rfl⟩ := List.mem_map.mp hpiece
      exact DrvliType.print_noComma (h t ht)
  have hcomma : ',' ∈ (DrvliType.tuple types).print := by
    match types, hlength with
    | t :: t' :: types, _ =>
        rw [hprint, List.map_cons, List.map_cons, List.intercalate_cons_cons]
        simp
  have hread : ∀ t ∈ types, ∃ raw,
      parseTypeFuel ((DrvliType.tuple types).print.length + 1) t.print = .ok (id raw) ∧
        raw.fixTypes interfaces structs = .ok t := by
    intro t ht
    have hmem : t.print ∈ Text.splitPair ',' ' ' (DrvliType.tuple types).print := by
      rw [hpieces]
      exact List.mem_map_of_mem ht
    exact parseTypeFuel_print (h t ht) (Nat.lt_succ_of_le (Text.splitPair_length_le hmem))
  obtain ⟨raws, hraws, hfix⟩ := mapM_readBack id hread
  rw [List.map_id] at hraws
  refine ⟨.tuple raws, ?_, ?_⟩
  · rw [parseType, parseTypeFuel, if_pos hcomma, hpieces, List.mapM_map]
    exact Checked.bind_eq_ok.mpr ⟨raws, hraws, rfl⟩
  · rw [DrvliType.fixTypes, fixTypesList_eq, hfix]
    rfl

lemma parseType_returnable (h : t.Returnable interfaces structs) :
    ∃ raw, parseType t.print = .ok raw ∧ raw.fixTypes interfaces structs = .ok t := by
  rcases h with h | ⟨types, rfl, hlength, htypes⟩
  · exact parseType_plain h
  · exact parseType_tuple hlength htypes

/-! ## Lines -/

variable {named args : List (List Char × DrvliType)} {returnType : Option DrvliType}
  {p : List Char × DrvliType}

lemma splitOnceUnwrap_append {sep : Char} {head : List Char} (h : sep ∉ head) (tail : List Char) :
    splitOnceUnwrap sep (head ++ sep :: tail) = .ok (head, tail) := by
  rw [splitOnceUnwrap, Text.splitOnce_eq_some.mpr ⟨rfl, h⟩]
  rfl

lemma parseNamed_print (hname : IsIdentifier p.1) (htype : p.2.Plain interfaces structs) :
    ∃ raw, parseNamed (printNamed p) = .ok (p.1, raw) ∧ raw.fixTypes interfaces structs = .ok p.2 := by
  obtain ⟨raw, hraw, hfix⟩ := parseType_plain htype
  refine ⟨raw, ?_, hfix⟩
  rw [parseNamed, printNamed, splitOnceUnwrap_append hname.noSpace]
  simp only [Checked.ok_bind, hraw]
  rfl

lemma named_readBack (h : NamedWellFormed interfaces structs named) :
    ∃ raws, (named.map printNamed).mapM parseNamed = .ok raws ∧
      fixNamed interfaces structs raws = .ok named := by
  have hread : ∀ p ∈ named, ∃ raw, parseNamed (printNamed p) = .ok (id raw) ∧ (do
      let type ← raw.2.fixTypes interfaces structs
      pure (raw.1, type)) = (.ok p : Checked (List Char × DrvliType)) := by
    intro p hp
    obtain ⟨raw, hraw, hfix⟩ := parseNamed_print (h p hp).1 (h p hp).2
    exact ⟨(p.1, raw), hraw, by rw [hfix]; rfl⟩
  obtain ⟨raws, hraws, hfix⟩ := mapM_readBack id hread
  rw [List.map_id] at hraws
  exact ⟨raws, by rw [List.mapM_map]; exact hraws, hfix⟩

lemma printNamed_inner (hname : IsIdentifier p.1) (htype : p.2.Plain interfaces structs) :
    ∀ c ∈ printNamed p, Inner c := by
  rw [printNamed, ← List.singleton_append]
  exact inner_append hname.inner (inner_append (by decide) (DrvliType.print_inner htype))

lemma mem_intercalate {α : Type} {sep : List α} {pieces : List (List α)} {c : α}
    (h : c ∈ sep.intercalate pieces) : c ∈ sep ∨ ∃ piece ∈ pieces, c ∈ piece := by
  induction pieces with
  | nil => exact absurd h List.not_mem_nil
  | cons piece pieces ih =>
      cases pieces with
      | nil =>
          rw [List.intercalate_singleton] at h
          exact Or.inr ⟨piece, List.mem_cons_self, h⟩
      | cons next pieces =>
          rw [List.intercalate_cons_cons, List.mem_append, List.mem_append] at h
          rcases h with (h | h) | h
          · exact Or.inr ⟨piece, List.mem_cons_self, h⟩
          · exact Or.inl h
          · exact (ih h).imp_right fun ⟨q, hq, hc⟩ => ⟨q, List.mem_cons_of_mem _ hq, hc⟩

/-- A character that may stand between the parentheses of a signature. -/
abbrev InnerArgs (c : Char) : Prop := c ∉ ['(', ')', '\n', '\r']

lemma Inner.innerArgs {c : Char} (h : Inner c) : InnerArgs c := fun hmem =>
  h (List.mem_cons_of_mem _ hmem)

lemma printArgs_inner (h : NamedWellFormed interfaces structs args) :
    ∀ c ∈ printArgs args, InnerArgs c := by
  intro c hc
  rcases mem_intercalate hc with hsep | ⟨piece, hpiece, hc⟩
  · have hseparator : ∀ c ∈ [',', ' '], InnerArgs c := by decide
    exact hseparator c hsep
  · obtain ⟨p, hp, rfl⟩ := List.mem_map.mp hpiece
    exact Inner.innerArgs (printNamed_inner (h p hp).1 (h p hp).2 c hc)

/-- Arguments are found again between their commas. -/
lemma parseArgs_print (h : NamedWellFormed interfaces structs args) :
    parseArgs (printArgs args) = (args.map printNamed).mapM parseNamed := by
  cases args with
  | nil => rfl
  | cons p args =>
      have hclean : ∀ piece ∈ (p :: args).map printNamed, ',' ∉ piece := by
        intro piece hpiece hmem
        obtain ⟨q, hq, rfl⟩ := List.mem_map.mp hpiece
        exact printNamed_inner (h q hq).1 (h q hq).2 ',' hmem (by decide)
      have hsplit : Text.splitPair ',' ' ' (printArgs (p :: args)) = (p :: args).map printNamed :=
        Text.splitPair_intercalate (List.cons_ne_nil _ _) hclean
      have hfilter : ((p :: args).map printNamed).filter (· ≠ []) = (p :: args).map printNamed := by
        refine List.filter_eq_self.mpr fun piece hpiece => ?_
        obtain ⟨q, -, rfl⟩ := List.mem_map.mp hpiece
        simp [printNamed]
      rw [parseArgs, hsplit, hfilter]

lemma returnType_readBack (h : ∀ type ∈ returnType, type.Returnable interfaces structs) :
    ∃ raw, parseReturnType (printReturnType returnType) = .ok raw ∧
      fixReturnType interfaces structs raw = .ok returnType := by
  cases returnType with
  | none => exact ⟨none, rfl, rfl⟩
  | some type =>
      obtain ⟨raw, hraw, hfix⟩ := parseType_returnable (h type rfl)
      refine ⟨some raw, ?_, by rw [fixReturnType, hfix]; rfl⟩
      have hspace : (printReturnType (some type)).dropPrefix? [' '] = some type.print :=
        dropPrefix_append [' '] _
      rw [parseReturnType, hspace]
      simp only [hraw, Checked.ok_bind]
      rfl

/-- **A signature is read back.** -/
lemma signature_readBack (h : SignatureWellFormed interfaces structs name args returnType) :
    ∃ rawArgs rawReturn,
      parseSignature (printSignature name args returnType) = .ok (name, rawArgs, rawReturn) ∧
        fixNamed interfaces structs rawArgs = .ok args ∧
          fixReturnType interfaces structs rawReturn = .ok returnType := by
  obtain ⟨hname, hargs, hreturn⟩ := h
  obtain ⟨rawArgs, hrawArgs, hfixArgs⟩ := named_readBack hargs
  obtain ⟨rawReturn, hrawReturn, hfixReturn⟩ := returnType_readBack hreturn
  refine ⟨rawArgs, rawReturn, ?_, hfixArgs, hfixReturn⟩
  have hopen : '(' ∉ name := fun hmem => hname.inner '(' hmem (by decide)
  have hclose : ')' ∉ printArgs args := fun hmem => printArgs_inner hargs ')' hmem (by decide)
  rw [parseSignature, printSignature, splitOnceUnwrap_append hopen, Checked.ok_bind]
  simp only [splitOnceUnwrap_append hclose, Checked.ok_bind, parseArgs_print hargs, hrawArgs,
    hrawReturn]
  rfl

/-! ## Items -/

lemma parseInterfaceMember_method {m : Method}
    (h : SignatureWellFormed interfaces structs m.name m.args m.returnType) :
    ∃ raw, parseInterfaceMember m.print = .ok (some (.method raw)) ∧
      raw.fixTypes interfaces structs = .ok m := by
  obtain ⟨rawArgs, rawReturn, hraw, hfixArgs, hfixReturn⟩ := signature_readBack h
  refine ⟨⟨m.name, rawArgs, rawReturn⟩, ?_, ?_⟩
  · have hfunc : m.print.dropPrefix? "func ".toList =
        some (printSignature m.name m.args m.returnType) := dropPrefix_append _ _
    rw [parseInterfaceMember, hfunc]
    simp only [hraw, Checked.ok_bind]
    rfl
  · rw [Method.fixTypes, hfixArgs]
    simp only [Checked.ok_bind, hfixReturn]
    rfl

lemma parseInterfaceMember_stream {s : Stream} (hname : IsIdentifier s.name)
    (htype : s.type.Plain interfaces structs) :
    ∃ raw, parseInterfaceMember s.print = .ok (some (.stream raw)) ∧
      raw.fixTypes interfaces structs = .ok s := by
  obtain ⟨raw, hraw, hfix⟩ := parseNamed_print (p := (s.name, s.type)) hname htype
  refine ⟨⟨s.name, raw⟩, ?_, ?_⟩
  · have hfunc : s.print.dropPrefix? "func ".toList = none := rfl
    have hstream : s.print.dropPrefix? "stream ".toList = some (printNamed (s.name, s.type)) :=
      dropPrefix_append _ _
    rw [parseInterfaceMember, hfunc, hstream]
    simp only [hraw, Checked.ok_bind]
    rfl
  · rw [Stream.fixTypes, hfix]
    rfl

/-- The methods and streams of an interface are read back, but for the names in their types. -/
lemma body_readBack {i : Interface}
    (hmethods : ∀ m ∈ i.methods, SignatureWellFormed interfaces structs m.name m.args m.returnType)
    (hstreams : ∀ s ∈ i.streams, IsIdentifier s.name ∧ s.type.Plain interfaces structs) :
    ∃ (methods : List Method) (streams : List Stream),
      i.body.mapM parseInterfaceMember =
          .ok ((methods.map InterfaceMember.method ++ streams.map InterfaceMember.stream).map some) ∧
        methods.mapM (Method.fixTypes interfaces structs) = .ok i.methods ∧
        streams.mapM (Stream.fixTypes interfaces structs) = .ok i.streams := by
  obtain ⟨methods, hrawMethods, hfixMethods⟩ :=
    mapM_readBack (some ∘ InterfaceMember.method) (f := parseInterfaceMember ∘ Method.print)
      (g := Method.fixTypes interfaces structs) fun m hm =>
        parseInterfaceMember_method (hmethods m hm)
  obtain ⟨streams, hrawStreams, hfixStreams⟩ :=
    mapM_readBack (some ∘ InterfaceMember.stream) (f := parseInterfaceMember ∘ Stream.print)
      (g := Stream.fixTypes interfaces structs) fun s hs =>
        parseInterfaceMember_stream (hstreams s hs).1 (hstreams s hs).2
  refine ⟨methods, streams, ?_, hfixMethods, hfixStreams⟩
  rw [Interface.body, List.mapM_append, List.mapM_map, List.mapM_map, hrawMethods, hrawStreams,
    List.map_append, List.map_map, List.map_map]
  rfl

lemma ofMembers_append (name : List Char) (details : InterfaceDetails) (methods : List Method)
    (streams : List Stream) :
    Interface.ofMembers name details ((methods.map InterfaceMember.method ++
      streams.map InterfaceMember.stream).map some).reduceOption =
        ⟨name, methods, streams, details⟩ := by
  have hreduce : ∀ members : List InterfaceMember, (members.map some).reduceOption = members := by
    intro members
    show (members.map some).filterMap id = members
    rw [List.filterMap_map]
    exact List.filterMap_some
  rw [hreduce, Interface.ofMembers]
  simp [List.filterMap_map]

lemma trim_implements {interface : List Char} (h : IsIdentifier interface) :
    (((printImplements (some interface)).dropWhile isWhitespace).rdropWhile isWhitespace) =
      "implements ".toList ++ interface := by
  have hfront : (printImplements (some interface)).dropWhile isWhitespace =
      "implements ".toList ++ interface := rfl
  have hne : "implements ".toList ++ interface ≠ [] := List.append_ne_nil_of_right_ne_nil _ h.1
  rw [hfront]
  refine List.rdropWhile_eq_self_iff.mpr fun hne => ?_
  have hlast : ("implements ".toList ++ interface).getLast hne ∈ interface := by
    rw [List.getLast_append_of_ne_nil _ h.1]
    exact List.getLast_mem _
  rw [(h.2 _ hlast).1]
  decide

/-- The header of an app is read back. -/
lemma app_readBack {implements : Option (List Char)} (hname : IsIdentifier name)
    (h : (InterfaceDetails.app args implements).WellFormed interfaces structs) :
    ∃ raw, parseApp (printApp name args implements) = .ok (name, raw) ∧
      raw.fixTypes interfaces structs = .ok (.app args implements) := by
  obtain ⟨hargs, himplements⟩ := h
  obtain ⟨rawArgs, hrawArgs, hfixArgs⟩ := named_readBack hargs
  refine ⟨.app rawArgs implements, ?_, by rw [InterfaceDetails.fixTypes, hfixArgs]; rfl⟩
  have hinner : ∀ c ∈ name, c ≠ '(' ∧ c ≠ ' ' := fun c hc =>
    ⟨fun h => hname.inner c hc (by rw [h]; decide), fun h => hname.noSpace (h ▸ hc)⟩
  have hclose : ')' ∉ printArgs args := fun hmem => printArgs_inner hargs ')' hmem (by decide)
  have htake : (printApp name args implements).takeWhile (fun c => c ≠ '(' ∧ c ≠ ' ') = name := by
    rw [printApp, List.takeWhile_append_of_pos fun c hc => decide_eq_true (hinner c hc)]
    simp
  have hdrop : (printApp name args implements).dropWhile (fun c => c ≠ '(' ∧ c ≠ ' ') =
      '(' :: (printArgs args ++ ')' :: printImplements implements) := by
    rw [printApp, List.dropWhile_append_of_pos fun c hc => decide_eq_true (hinner c hc)]
    simp
  have hopen : ('(' :: (printArgs args ++ ')' :: printImplements implements)).dropPrefix? ['('] =
      some (printArgs args ++ ')' :: printImplements implements) := dropPrefix_append ['('] _
  have hbehind : (((printImplements implements).dropWhile isWhitespace).rdropWhile
      isWhitespace).dropPrefix? "implements ".toList = implements := by
    cases implements with
    | none => rfl
    | some interface => rw [trim_implements (himplements interface rfl), dropPrefix_append]
  rw [parseApp, htake, hdrop, parseAppArgs, hopen]
  simp only [splitOnceUnwrap_append hclose, Checked.ok_bind, parseArgs_print hargs, hrawArgs]
  simp only [pure_bind, hbehind]
  rfl

/-- A definition as the parser leaves it, before the names in its types are resolved. -/
def Definition.Resolves (interfaces structs : List (List Char)) : Definition → Definition → Prop
  | .struct raw, .struct s => raw.fixTypes interfaces structs = .ok s
  | .interface raw, .interface i => raw.fixTypes interfaces structs = .ok i
  | .syscall raw, .syscall s => raw.fixTypes interfaces structs = .ok s
  | _, _ => False

/-- **An item is read back**, but for the names in its types. -/
theorem meaning_item {d : Definition} (h : d.WellFormed interfaces structs) :
    ∃ raw, d.item.meaning = .ok raw ∧ raw.Resolves interfaces structs d := by
  cases d with
  | struct s =>
      obtain ⟨rawMembers, hraw, hfix⟩ := named_readBack h.2
      refine ⟨.struct ⟨s.name, rawMembers⟩, ?_, ?_⟩
      · simp only [Definition.item, Item.meaning, hraw, Checked.ok_bind]
        rfl
      · rw [Definition.Resolves, Struct.fixTypes, hfix]
        rfl
  | interface i =>
      obtain ⟨hname, hmethods, hstreams, hdetails⟩ := h
      obtain ⟨methods, streams, hraw, hfixMethods, hfixStreams⟩ := body_readBack hmethods hstreams
      obtain ⟨name, methods', streams', details⟩ := i
      cases details with
      | app args implements =>
          obtain ⟨rawDetails, hrawApp, hfixDetails⟩ := app_readBack hname hdetails
          refine ⟨.interface ⟨name, methods, streams, rawDetails⟩, ?_, ?_⟩
          · simp only [Definition.item, Interface.item, Item.meaning, hrawApp, hraw, Checked.ok_bind,
              ofMembers_append]
            rfl
          · rw [Definition.Resolves, Interface.fixTypes]
            simp only [hfixMethods, hfixStreams, hfixDetails, Checked.ok_bind]
            rfl
      | interface =>
          refine ⟨.interface ⟨name, methods, streams, .interface⟩, ?_, ?_⟩
          · simp only [Definition.item, Interface.item, Item.meaning, hraw, Checked.ok_bind,
              ofMembers_append]
            rfl
          · rw [Definition.Resolves, Interface.fixTypes]
            simp only [hfixMethods, hfixStreams, Checked.ok_bind]
            rfl
  | syscall s =>
      obtain ⟨rawArgs, rawReturn, hraw, hfixArgs, hfixReturn⟩ := signature_readBack h
      refine ⟨.syscall ⟨s.name, rawArgs, rawReturn⟩, ?_, ?_⟩
      · simp only [Definition.item, Item.meaning, parseSyscall, hraw, Checked.ok_bind]
        rfl
      · rw [Definition.Resolves, Syscall.fixTypes, hfixArgs]
        simp only [Checked.ok_bind, hfixReturn]
        rfl

/-! ## Descriptions -/

lemma Struct.fixTypes_name {raw s : Struct} (h : raw.fixTypes interfaces structs = .ok s) :
    raw.name = s.name := by
  obtain ⟨members, -, h⟩ := Checked.bind_eq_ok.mp h
  cases h
  rfl

lemma Interface.fixTypes_name {raw i : Interface} (h : raw.fixTypes interfaces structs = .ok i) :
    raw.name = i.name := by
  obtain ⟨methods, -, h⟩ := Checked.bind_eq_ok.mp h
  obtain ⟨streams, -, h⟩ := Checked.bind_eq_ok.mp h
  obtain ⟨details, -, h⟩ := Checked.bind_eq_ok.mp h
  cases h
  rfl

/-- The parts of a description are resolved one by one, and no item changes its name. -/
lemma ofDefinitions_resolves {raws definitions : List Definition}
    (h : List.Forall₂ (Definition.Resolves interfaces structs) raws definitions) :
    (Drvli.ofDefinitions raws).interfaces.mapM (Interface.fixTypes interfaces structs) =
        .ok (Drvli.ofDefinitions definitions).interfaces ∧
      (Drvli.ofDefinitions raws).structs.mapM (Struct.fixTypes interfaces structs) =
        .ok (Drvli.ofDefinitions definitions).structs ∧
      (Drvli.ofDefinitions raws).syscalls.mapM (Syscall.fixTypes interfaces structs) =
        .ok (Drvli.ofDefinitions definitions).syscalls ∧
      interfaceNames raws = interfaceNames definitions ∧
      structNames raws = structNames definitions := by
  induction h with
  | nil => exact ⟨rfl, rfl, rfl, rfl, rfl⟩
  | @cons raw d raws definitions hd _ ih =>
      obtain ⟨hinterfaces, hstructs, hsyscalls, hinames, hsnames⟩ := ih
      simp only [Drvli.ofDefinitions, interfaceNames, structNames] at *
      cases raw with
      | struct raw =>
          cases d with
          | struct s =>
              have hs : raw.fixTypes interfaces structs = .ok s := hd
              refine ⟨hinterfaces, ?_, hsyscalls, hinames, ?_⟩
              · simp [List.mapM_cons, hs, hstructs]
              · simp [Struct.fixTypes_name hs, hsnames]
          | interface i => exact hd.elim
          | syscall s => exact hd.elim
      | interface raw =>
          cases d with
          | struct s => exact hd.elim
          | interface i =>
              have hi : raw.fixTypes interfaces structs = .ok i := hd
              refine ⟨?_, hstructs, hsyscalls, ?_, hsnames⟩
              · simp [List.mapM_cons, hi, hinterfaces]
              · simp [Interface.fixTypes_name hi, hinames]
          | syscall s => exact hd.elim
      | syscall raw =>
          cases d with
          | struct s => exact hd.elim
          | interface i => exact hd.elim
          | syscall s =>
              have hs : raw.fixTypes interfaces structs = .ok s := hd
              refine ⟨hinterfaces, hstructs, ?_, hinames, hsnames⟩
              simp [List.mapM_cons, hs, hsyscalls]

/-- **The items say what was written.** -/
theorem meaning_items {definitions : List Definition} (h : WellFormed definitions) :
    meaning (definitions.map Definition.item) = .ok (Drvli.ofDefinitions definitions) := by
  have hread : ∀ {ds : List Definition},
      (∀ d ∈ ds, d.WellFormed (interfaceNames definitions) (structNames definitions)) →
        ∃ raws, (ds.map Definition.item).mapM Item.meaning = .ok raws ∧
          List.Forall₂
            (Definition.Resolves (interfaceNames definitions) (structNames definitions)) raws ds := by
    intro ds hds
    induction ds with
    | nil => exact ⟨[], rfl, .nil⟩
    | cons d ds ih =>
        obtain ⟨hd, hrest⟩ := List.forall_mem_cons.mp hds
        obtain ⟨raw, hraw, hresolves⟩ := meaning_item hd
        obtain ⟨raws, hraws, hall⟩ := ih hrest
        refine ⟨raw :: raws, ?_, .cons hresolves hall⟩
        rw [List.map_cons, List.mapM_cons, hraw, Checked.ok_bind, hraws]
        rfl
  obtain ⟨raws, hraws, hresolves⟩ := hread h
  obtain ⟨hinterfaces, hstructs, hsyscalls, hinames, hsnames⟩ := ofDefinitions_resolves hresolves
  rw [← hinames, ← hsnames] at hinterfaces hstructs hsyscalls
  rw [meaning, hraws, Checked.ok_bind, Drvli.fixTypes]
  simp only [interfaceNames, structNames] at hinterfaces hstructs hsyscalls
  simp only [hinterfaces, hstructs, hsyscalls, Checked.ok_bind]
  rfl

/-- A line without line breaks. -/
def Unbroken (line : List Char) : Prop := '\n' ∉ line ∧ '\r' ∉ line

lemma Unbroken.append {start : List Char} (hstart : Unbroken start) (hline : Unbroken line) :
    Unbroken (start ++ line) := by
  simp only [Unbroken, List.mem_append, not_or] at *
  exact ⟨⟨hstart.1, hline.1⟩, hstart.2, hline.2⟩

lemma Unbroken.cons {c : Char} (hc : c ≠ '\n' ∧ c ≠ '\r') (hline : Unbroken line) :
    Unbroken (c :: line) := by
  refine @Unbroken.append line [c] ?_ hline
  simp only [Unbroken, List.mem_singleton]
  exact ⟨Ne.symm hc.1, Ne.symm hc.2⟩

lemma Unbroken.of_inner (h : ∀ c ∈ line, InnerArgs c) : Unbroken line :=
  ⟨fun hmem => h _ hmem (by decide), fun hmem => h _ hmem (by decide)⟩

lemma IsIdentifier.unbroken (h : IsIdentifier name) : Unbroken name :=
  .of_inner fun c hc => Inner.innerArgs (h.inner c hc)

lemma DrvliType.print_unbroken (h : t.Returnable interfaces structs) : Unbroken t.print := by
  refine .of_inner fun c hc => ?_
  rcases h with h | ⟨types, rfl, -, htypes⟩
  · exact Inner.innerArgs (DrvliType.print_inner h c hc)
  · have hc' : c ∈ [',', ' '].intercalate (printTypes types) := hc
    rw [printTypes_eq] at hc'
    rcases mem_intercalate hc' with hsep | ⟨piece, hpiece, hmem⟩
    · have hseparator : ∀ c ∈ [',', ' '], InnerArgs c := by decide
      exact hseparator c hsep
    · obtain ⟨t, ht, rfl⟩ := List.mem_map.mp hpiece
      exact Inner.innerArgs (DrvliType.print_inner (htypes t ht) c hmem)

lemma printNamed_unbroken (hname : IsIdentifier p.1) (htype : p.2.Plain interfaces structs) :
    Unbroken (printNamed p) :=
  .of_inner fun c hc => Inner.innerArgs (printNamed_inner hname htype c hc)

lemma printSignature_unbroken (h : SignatureWellFormed interfaces structs name args returnType) :
    Unbroken (printSignature name args returnType) := by
  obtain ⟨hname, hargs, hreturn⟩ := h
  have hbehind : Unbroken (printReturnType returnType) := by
    cases returnType with
    | none => exact ⟨List.not_mem_nil, List.not_mem_nil⟩
    | some type => exact .cons (by decide) (DrvliType.print_unbroken (hreturn type rfl))
  exact hname.unbroken.append (.cons (by decide)
    ((Unbroken.of_inner (printArgs_inner hargs)).append (.cons (by decide) hbehind)))

lemma printApp_unbroken {implements : Option (List Char)} (hname : IsIdentifier name)
    (h : (InterfaceDetails.app args implements).WellFormed interfaces structs) :
    Unbroken (printApp name args implements) := by
  have hbehind : Unbroken (printImplements implements) := by
    cases implements with
    | none => exact ⟨List.not_mem_nil, List.not_mem_nil⟩
    | some interface =>
        exact Unbroken.append ⟨by decide, by decide⟩ (h.2 interface rfl).unbroken
  exact hname.unbroken.append (.cons (by decide)
    ((Unbroken.of_inner (printArgs_inner h.1)).append (.cons (by decide) hbehind)))

lemma body_unbroken {i : Interface}
    (hmethods : ∀ m ∈ i.methods, SignatureWellFormed interfaces structs m.name m.args m.returnType)
    (hstreams : ∀ s ∈ i.streams, IsIdentifier s.name ∧ s.type.Plain interfaces structs) :
    ∀ line ∈ i.body, Unbroken line := by
  intro line hline
  rcases List.mem_append.mp hline with hline | hline
  · obtain ⟨m, hm, rfl⟩ := List.mem_map.mp hline
    exact Unbroken.append ⟨by decide, by decide⟩ (printSignature_unbroken (hmethods m hm))
  · obtain ⟨s, hs, rfl⟩ := List.mem_map.mp hline
    exact Unbroken.append ⟨by decide, by decide⟩
      (printNamed_unbroken (p := (s.name, s.type)) (hstreams s hs).1 (hstreams s hs).2)

lemma indented_unbroken {body : List (List Char)} (h : ∀ line ∈ body, Unbroken line) :
    ∀ line ∈ body.map (indentation ++ ·), Unbroken line := by
  intro line hline
  obtain ⟨member, hmember, rfl⟩ := List.mem_map.mp hline
  exact Unbroken.append ⟨by decide, by decide⟩ (h member hmember)

/-- The lines of an item have no line breaks of their own. -/
lemma item_unbroken {d : Definition} (h : d.WellFormed interfaces structs) :
    ∀ line ∈ d.item.head :: d.item.indented, Unbroken line := by
  rw [List.forall_mem_cons]
  cases d with
  | struct s =>
      refine ⟨Unbroken.append ⟨by decide, by decide⟩ h.1.unbroken, indented_unbroken ?_⟩
      intro line hline
      obtain ⟨p, hp, rfl⟩ := List.mem_map.mp hline
      exact printNamed_unbroken (h.2 p hp).1 (h.2 p hp).2
  | interface i =>
      obtain ⟨hname, hmethods, hstreams, hdetails⟩ := h
      have hbody := indented_unbroken (body_unbroken hmethods hstreams)
      obtain ⟨name, methods, streams, details⟩ := i
      cases details with
      | app args implements =>
          exact ⟨Unbroken.append ⟨by decide, by decide⟩ (printApp_unbroken hname hdetails), hbody⟩
      | interface => exact ⟨Unbroken.append ⟨by decide, by decide⟩ hname.unbroken, hbody⟩
  | syscall s =>
      exact ⟨Unbroken.append ⟨by decide, by decide⟩ (printSignature_unbroken h),
        fun line hline => absurd hline List.not_mem_nil⟩

variable {layout : List (Definition × ℕ)}

/-- The lines of what is written are those of the items. -/
lemma lines_printDrvli (h : WellFormed (layout.map Prod.fst)) :
    Text.lines (printDrvli layout) = layoutLines (layout.map fun p => (p.1.item, p.2)) := by
  refine Text.lines_unlines fun line hline => ?_
  obtain ⟨q, hq, hline⟩ := List.mem_flatMap.mp hline
  obtain ⟨p, hp, rfl⟩ := List.mem_map.mp hq
  rcases List.mem_append.mp hline with hline | hline
  · exact item_unbroken (h p.1 (List.mem_map_of_mem hp)) line hline
  · rw [List.eq_of_mem_replicate hline]
    exact ⟨List.not_mem_nil, List.not_mem_nil⟩

lemma meaning_layout (h : WellFormed (layout.map Prod.fst)) :
    meaning ((layout.map fun p => (p.1.item, p.2)).map Prod.fst) =
      .ok (Drvli.ofDefinitions (layout.map Prod.fst)) := by
  rw [← meaning_items h, List.map_map, List.map_map]
  rfl

/-- **`parse_drvli` reads what was written**, and finds out again which names in the types are of
structs and which are of interfaces, if and only if there is a blank line behind each app and interface
that is not the last item. -/
theorem parseDrvli_print_iff (h : WellFormed (layout.map Prod.fst)) :
    parseDrvli (printDrvli layout) = .ok (Drvli.ofDefinitions (layout.map Prod.fst)) ↔
      Spaced (layout.map fun p => (p.1.item, p.2)) :=
  parseDrvli_eq_iff (lines_printDrvli h) (meaning_layout h)

/-- An app that implements an interface, which has a method with a tuple for its result. -/
def consoleLayout (gap : ℕ) : List (Definition × ℕ) :=
  [(.interface ⟨"terminal".toList, [], [],
      .app [("image".toList, .typedCapability "console".toList)] (some "console".toList)⟩, gap),
    (.interface ⟨"console".toList,
      [⟨"size".toList, [("font".toList, .text), ("data".toList, .array .u8)],
        some (.tuple [.u32, .option .processId])⟩], [], .interface⟩, 0)]

/-- With a blank line behind the app, this is read back; without one, it is not. -/
theorem parseDrvli_print_console :
    parseDrvli (printDrvli (consoleLayout 1)) =
        .ok (Drvli.ofDefinitions ((consoleLayout 1).map Prod.fst)) ∧
      parseDrvli (printDrvli (consoleLayout 0)) ≠
        .ok (Drvli.ofDefinitions ((consoleLayout 0).map Prod.fst)) :=
  ⟨(parseDrvli_print_iff (by decide +kernel)).mpr (by decide +kernel),
    fun h => absurd ((parseDrvli_print_iff (by decide +kernel)).mp h) (by decide +kernel)⟩

end Codegen

end Deravel
