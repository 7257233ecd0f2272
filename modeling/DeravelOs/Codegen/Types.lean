import DeravelOs.Lib.Text
import DeravelOs.Types.Basic

/-!
# The types of an interface description

`Type` of `codegen/src/lib.rs` and `parse_type` of `codegen/src/parse.rs`.  A text with a comma is a
tuple, and its components are what stands between the separators; but a separator is a comma and a
space, so that a component may be the text itself.

* `DrvliType`, `parseTypeFuel`: types and how they are parsed, with a bound on the recursion.
* `parseTypeFuel_clean`: without a comma, each step of the recursion takes a prefix away.
* `parseType_ends_iff`: the recursion ends if and only if each comma is followed by a space.
-/

namespace Deravel

namespace Codegen

/-- `Type` -/
inductive DrvliType
  | array (inner : DrvliType)
  | bytes
  | constArray (inner : DrvliType)
  | constPtr (inner : DrvliType)
  | i8
  | i16
  | i32
  | i64
  | isize
  | never
  | option (inner : DrvliType)
  | processId
  | processSpawner (interface : List Char)
  | ptr (inner : DrvliType)
  | sharedMemory
  | struct (name : List Char)
  | text
  | tuple (types : List DrvliType)
  | typedCapability (name : List Char)
  | u8
  | u16
  | u32
  | u64
  | unknown (src : List Char)
  | untypedCapability
  | untypedPointer
  | usize
  deriving Repr

/-- The types with a name of their own. -/
def namedTypes : List (List Char × DrvliType) :=
  [("bytes".toList, .bytes), ("capability".toList, .untypedCapability), ("i8".toList, .i8),
    ("i16".toList, .i16), ("i32".toList, .i32), ("i64".toList, .i64), ("isize".toList, .isize),
    ("never".toList, .never), ("pid".toList, .processId), ("ptr".toList, .untypedPointer),
    ("shared_memory".toList, .sharedMemory), ("text".toList, .text), ("u8".toList, .u8),
    ("u16".toList, .u16), ("u32".toList, .u32), ("u64".toList, .u64), ("usize".toList, .usize)]

/-- `parse_type`, with at most `fuel` calls inside of one another. -/
def parseTypeFuel : (fuel : ℕ) → List Char → Checked DrvliType
  | 0, _ => throw (.stackOverflow .parseType)
  | fuel + 1, src =>
      if ',' ∈ src then do
        let types ← (Text.splitPair ',' ' ' src).mapM (parseTypeFuel fuel)
        pure (.tuple types)
      else if let some inner := src.dropPrefix? "array ".toList then do
        let type ← parseTypeFuel fuel inner
        pure (.array type)
      else if let some inner := src.dropPrefix? "const_array ".toList then do
        let type ← parseTypeFuel fuel inner
        pure (.constArray type)
      else if let some inner := src.dropPrefix? "const_ptr ".toList then do
        let type ← parseTypeFuel fuel inner
        pure (.constPtr type)
      else if let some inner := src.dropPrefix? "option ".toList then do
        let type ← parseTypeFuel fuel inner
        pure (.option type)
      else if let some interface := src.dropPrefix? "process_spawner ".toList then
        pure (.processSpawner interface)
      else if let some inner := src.dropPrefix? "ptr ".toList then do
        let type ← parseTypeFuel fuel inner
        pure (.ptr type)
      else pure ((namedTypes.lookup src).getD (.unknown src))

variable {src : List Char} {fuel : ℕ}

/-! ## Texts without a comma -/

/-- What stands behind a prefix is shorter, and has no comma if the text has none. -/
lemma dropPrefix_shorter {start inner : List Char} (h : src.dropPrefix? start = some inner)
    (hstart : start ≠ []) : inner.length < src.length ∧ (',' ∉ src → ',' ∉ inner) := by
  obtain ⟨front, rfl, hfront⟩ := List.dropPrefix?_eq_some_iff.mp h
  obtain rfl := eq_of_beq hfront
  refine ⟨?_, fun hcomma hmem => hcomma (List.mem_append_right _ hmem)⟩
  rw [List.length_append]
  exact Nat.lt_add_of_pos_left (List.length_pos_iff_ne_nil.mpr hstart)

/-- **Without a comma, the recursion ends:** each step takes a prefix away. -/
theorem parseTypeFuel_clean (hcomma : ',' ∉ src) (hfuel : src.length < fuel) :
    ∃ type, parseTypeFuel fuel src = .ok type := by
  induction fuel generalizing src with
  | zero => exact absurd hfuel (Nat.not_lt_zero _)
  | succ fuel ih =>
      have hwrap : ∀ (start inner : List Char) (wrap : DrvliType → DrvliType), start ≠ [] →
          src.dropPrefix? start = some inner →
            ∃ type, (do let type ← parseTypeFuel fuel inner; pure (wrap type)) =
              (.ok type : Checked DrvliType) := by
        intro start inner wrap hstart hinner
        obtain ⟨hlt, hclean⟩ := dropPrefix_shorter hinner hstart
        obtain ⟨type, htype⟩ := ih (hclean hcomma) (by omega)
        exact ⟨wrap type, Checked.bind_eq_ok.mpr ⟨type, htype, rfl⟩⟩
      rw [parseTypeFuel, if_neg hcomma]
      split
      · next inner hinner => exact hwrap _ inner .array (by decide) hinner
      split
      · next inner hinner => exact hwrap _ inner .constArray (by decide) hinner
      split
      · next inner hinner => exact hwrap _ inner .constPtr (by decide) hinner
      split
      · next inner hinner => exact hwrap _ inner .option (by decide) hinner
      split
      · next interface hinterface => exact ⟨_, rfl⟩
      split
      · next inner hinner => exact hwrap _ inner .ptr (by decide) hinner
      · exact ⟨_, rfl⟩

/-! ## Tuples -/

/-- A text in which a comma is not followed by a space is parsed forever. -/
lemma parseTypeFuel_stuck (h : ¬ Text.Followed ',' ' ' src) (fuel : ℕ) :
    ∀ type, parseTypeFuel fuel src ≠ .ok type := by
  have hne : ',' ≠ ' ' := by decide
  have hcomma : ',' ∈ src := by
    by_contra hmem
    exact h (Text.followed_of_notMem hmem)
  -- there is a component with a comma, and that is its own only component
  rw [← Text.splitPair_clean_iff hne] at h
  push Not at h
  obtain ⟨piece, hpiece, hmem⟩ := h
  have hself := Text.splitPair_piece hpiece
  have hpieceStuck : ∀ fuel type, parseTypeFuel fuel piece ≠ .ok type := by
    intro fuel
    induction fuel with
    | zero => exact fun type htype => by cases htype
    | succ fuel ih =>
        intro type htype
        rw [parseTypeFuel, if_pos hmem, hself] at htype
        obtain ⟨types, htypes, -⟩ := Checked.bind_eq_ok.mp htype
        obtain ⟨inner, hinner⟩ := Checked.mapM_returns_iff.mp ⟨types, htypes⟩ piece
          List.mem_cons_self
        exact ih inner hinner
  cases fuel with
  | zero => exact fun type htype => by cases htype
  | succ fuel =>
      intro type htype
      rw [parseTypeFuel, if_pos hcomma] at htype
      obtain ⟨types, htypes, -⟩ := Checked.bind_eq_ok.mp htype
      obtain ⟨inner, hinner⟩ := Checked.mapM_returns_iff.mp ⟨types, htypes⟩ piece hpiece
      exact hpieceStuck fuel inner hinner

/-- Where the recursion ends, it ends within this many steps. -/
lemma parseTypeFuel_followed (h : Text.Followed ',' ' ' src) (hfuel : src.length + 1 < fuel) :
    ∃ type, parseTypeFuel fuel src = .ok type := by
  by_cases hcomma : ',' ∈ src
  · obtain ⟨fuel, rfl⟩ := Nat.exists_eq_add_one_of_ne_zero (Nat.ne_zero_of_lt hfuel)
    have hclean := (Text.splitPair_clean_iff (by decide) src).mpr h
    have hpieces : ∀ piece ∈ Text.splitPair ',' ' ' src,
        ∃ type, parseTypeFuel fuel piece = .ok type := fun piece hpiece =>
      parseTypeFuel_clean (hclean piece hpiece)
        ((Text.splitPair_length_le hpiece).trans_lt (by omega))
    obtain ⟨types, htypes⟩ := Checked.mapM_returns_iff.mpr hpieces
    refine ⟨.tuple types, ?_⟩
    rw [parseTypeFuel, if_pos hcomma]
    exact Checked.bind_eq_ok.mpr ⟨types, htypes, rfl⟩
  · exact parseTypeFuel_clean hcomma (by omega)

/-- **The recursion of `parse_type` ends,** for every text, if and only if each comma of the text is
followed by a space.  A text with a comma is taken for a tuple, and is split where a space is behind a
comma.  A part that still has a comma is taken for a tuple again, of which it is the only part itself. -/
theorem parseType_ends_iff (src : List Char) :
    (∃ fuel type, parseTypeFuel fuel src = .ok type) ↔ Text.Followed ',' ' ' src := by
  constructor
  · rintro ⟨fuel, type, htype⟩
    by_contra h
    exact parseTypeFuel_stuck h fuel type htype
  · exact fun h => ⟨src.length + 2, parseTypeFuel_followed h (by omega)⟩

/-- A comma without a space: the text is its own only component. -/
theorem not_parseType_ends : ¬ ∃ fuel type, parseTypeFuel fuel ['a', ',', 'b'] = .ok type := by
  rintro ⟨fuel, type, htype⟩
  exact parseTypeFuel_stuck (by decide) fuel type htype

end Codegen

end Deravel
