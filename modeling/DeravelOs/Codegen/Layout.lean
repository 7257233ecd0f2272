import DeravelOs.Codegen.Parse

/-!
# Blank lines in an interface description

The items of a description are separated by blank lines, and it should not matter by how many.  The
loop over the body of an app or interface takes the line that ends it, which is a blank one only if
there is one.

* `Item`, `meaning`: descriptions without their layout.
* `parses_layout`: which items are kept, with any number of blank lines between them.
* `parseDrvli_layouts_iff`: two layouts have the meaning of the items if and only if in both of them
  a blank line separates each app and interface from the next item.
-/

namespace Deravel

namespace Codegen

/-! ## Descriptions -/

/-- An item, as the lines of its body without their indentation and what stands behind the first word
of the line above. -/
inductive Item
  | struct (name : List Char) (body : List (List Char))
  | app (header : List Char) (body : List (List Char))
  | interface (name : List Char) (body : List (List Char))
  | syscall (signature : List Char)

/-- The first line of an item. -/
def Item.head : Item → List Char
  | .struct name _ => "struct ".toList ++ name
  | .app header _ => "app ".toList ++ header
  | .interface name _ => "interface ".toList ++ name
  | .syscall signature => "syscall ".toList ++ signature

/-- The other lines of an item. -/
def Item.indented : Item → List (List Char)
  | .struct _ body => body.map (indentation ++ ·)
  | .app _ body => body.map (indentation ++ ·)
  | .interface _ body => body.map (indentation ++ ·)
  | .syscall _ => []

/-- The body of the item is read with `next`. -/
def Item.takesLine : Item → Bool
  | .struct _ _ => false
  | .app _ _ => true
  | .interface _ _ => true
  | .syscall _ => false

/-- What an item says, whatever stands in front of it and behind it. -/
def Item.meaning : Item → Checked Definition
  | .struct name body => do
      let members ← body.mapM parseNamed
      pure (.struct ⟨name, members⟩)
  | .app header body => do
      let (name, details) ← parseApp header
      let members ← body.mapM parseInterfaceMember
      pure (.interface (.ofMembers name details members.reduceOption))
  | .interface name body => do
      let members ← body.mapM parseInterfaceMember
      pure (.interface (.ofMembers name .interface members.reduceOption))
  | .syscall signature => do
      let syscall ← parseSyscall signature
      pure (.syscall syscall)

/-- What a description says. -/
def meaning (items : List Item) : Checked Drvli := do
  let definitions ← items.mapM Item.meaning
  (Drvli.ofDefinitions definitions).fixTypes

/-- The lines of a description in which each item is followed by so many blank lines. -/
def layoutLines (layout : List (Item × ℕ)) : List (List Char) :=
  layout.flatMap fun p => p.1.head :: p.1.indented ++ List.replicate p.2 []

/-- There is a blank line between an app or interface and the next item. -/
def Spaced : List (Item × ℕ) → Prop
  | [] => True
  | [_] => True
  | (item, gap) :: next :: rest => (item.takesLine → gap ≠ 0) ∧ Spaced (next :: rest)

/-- The items that are kept: behind an app or interface, an item that follows directly is lost. -/
def kept : List (Item × ℕ) → List Item
  | [] => []
  | [p] => [p.1]
  | (item, gap) :: next :: rest =>
      if item.takesLine ∧ gap = 0 then item :: kept rest else item :: kept (next :: rest)

variable {rest : List (List Char)} {r : Checked (List Definition)}

/-! ## Items -/

/-- The lines do not begin with one of a body. -/
def Unindented (lines : List (List Char)) : Prop :=
  ∀ line ∈ lines.head?, line.dropPrefix? indentation = none

lemma dropPrefix_append (start line : List Char) :
    (start ++ line).dropPrefix? start = some line :=
  List.dropPrefix?_eq_some_iff.mpr ⟨start, rfl, BEq.rfl⟩

/-- The members of a struct are read up to the first line that is not indented. -/
lemma parseMembers_body (hrest : Unindented rest) (body : List (List Char)) :
    parseMembers (body.map (indentation ++ ·) ++ rest) = (do
      let members ← body.mapM parseNamed
      pure (members, rest)) := by
  induction body with
  | nil =>
      cases rest with
      | nil => rfl
      | cons line lines =>
          rw [List.map_nil, List.nil_append, parseMembers, hrest line rfl]
          rfl
  | cons line body ih =>
      rw [List.map_cons, List.cons_append, parseMembers, dropPrefix_append, List.mapM_cons]
      simp only [ih, bind_assoc, pure_bind]

lemma reduceOption_cons_eq {α : Type} (a : Option α) (as : List (Option α)) :
    (a :: as).reduceOption = a.toList ++ as.reduceOption := by
  cases a with
  | none => rfl
  | some b => rfl

/-- The body of an interface is read up to that line, and with it. -/
lemma parseBody_body (hrest : Unindented rest) (body : List (List Char)) :
    parseBody (body.map (indentation ++ ·) ++ rest) = (do
      let members ← body.mapM parseInterfaceMember
      pure (members.reduceOption, rest.tail)) := by
  induction body with
  | nil =>
      cases rest with
      | nil => rfl
      | cons line lines =>
          rw [List.map_nil, List.nil_append, parseBody, hrest line rfl]
          rfl
  | cons line body ih =>
      rw [List.map_cons, List.cons_append, parseBody, dropPrefix_append, List.mapM_cons]
      simp only [ih, bind_assoc, pure_bind, reduceOption_cons_eq]

/-- **An item is parsed** to what it says, and an app or interface takes one more line. -/
lemma parseNext_item (item : Item) (hrest : Unindented rest) :
    parseNext item.head (item.indented ++ rest) = (do
      let definition ← item.meaning
      pure (some definition, if item.takesLine then rest.tail else rest)) := by
  cases item with
  | struct name body =>
      have hstruct : (Item.struct name body).head.dropPrefix? "struct ".toList = some name :=
        dropPrefix_append _ _
      rw [parseNext, hstruct]
      simp only [Item.indented, parseMembers_body hrest, Item.meaning, bind_assoc, pure_bind,
        Item.takesLine, Bool.false_eq_true, if_false]
  | app header body =>
      have hstruct : (Item.app header body).head.dropPrefix? "struct ".toList = none := rfl
      have happ : (Item.app header body).head.dropPrefix? "app ".toList = some header :=
        dropPrefix_append _ _
      rw [parseNext, hstruct]
      simp only [happ]
      simp only [Item.indented, parseInterface, parseBody_body hrest, Item.meaning, bind_assoc,
        pure_bind, Item.takesLine, if_true]
  | interface name body =>
      have hstruct : (Item.interface name body).head.dropPrefix? "struct ".toList = none := rfl
      have happ : (Item.interface name body).head.dropPrefix? "app ".toList = none := rfl
      have hinterface :
          (Item.interface name body).head.dropPrefix? "interface ".toList = some name :=
        dropPrefix_append _ _
      rw [parseNext, hstruct]
      simp only [happ, hinterface]
      simp only [Item.indented, parseInterface, parseBody_body hrest, Item.meaning, bind_assoc,
        pure_bind, Item.takesLine, if_true]
  | syscall signature =>
      have hstruct : (Item.syscall signature).head.dropPrefix? "struct ".toList = none := rfl
      have happ : (Item.syscall signature).head.dropPrefix? "app ".toList = none := rfl
      have hinterface : (Item.syscall signature).head.dropPrefix? "interface ".toList = none :=
        rfl
      have hsyscall :
          (Item.syscall signature).head.dropPrefix? "syscall ".toList = some signature :=
        dropPrefix_append _ _
      rw [parseNext, hstruct]
      simp only [happ, hinterface, hsyscall]
      simp only [Item.indented, Item.meaning, bind_assoc, pure_bind, Item.takesLine, List.nil_append,
        Bool.false_eq_true, if_false]

/-- A line that is blank or indented begins no item. -/
lemma parseNext_skip {line : List Char} (hline : line = [] ∨ ∃ t, line = indentation ++ t)
    (lines : List (List Char)) : parseNext line lines = .ok (none, lines) := by
  obtain rfl | ⟨t, rfl⟩ := hline
  · rfl
  · rfl

/-! ## Descriptions with any number of blank lines -/

/-- However many turns the loop may take, if they are enough, it comes to this. -/
def Parses (lines : List (List Char)) (r : Checked (List Definition)) : Prop :=
  ∀ fuel, lines.length < fuel → parseLines fuel lines = r

/-- There is nothing to parse. -/
lemma Parses.nil : Parses [] (.ok []) := by
  intro fuel hfuel
  obtain ⟨n, rfl⟩ := Nat.exists_eq_add_one_of_ne_zero (Nat.ne_of_gt hfuel)
  rfl

/-- Lines that begin no item are skipped. -/
lemma Parses.skip {skipped lines : List (List Char)}
    (hskipped : ∀ line ∈ skipped, line = [] ∨ ∃ t, line = indentation ++ t)
    (h : Parses lines r) : Parses (skipped ++ lines) r := by
  induction skipped with
  | nil => exact h
  | cons line skipped ih =>
      obtain ⟨hline, hskipped⟩ := List.forall_mem_cons.mp hskipped
      intro fuel hfuel
      obtain ⟨n, rfl⟩ := Nat.exists_eq_add_one_of_ne_zero (Nat.ne_of_gt (Nat.zero_lt_of_lt hfuel))
      have hrest : parseLines n (skipped ++ lines) = r := ih hskipped n (Nat.lt_of_succ_lt_succ hfuel)
      rw [List.cons_append, parseLines, parseNext_skip hline]
      simp only [Checked.ok_bind, hrest, Option.toList_none, List.nil_append]
      exact bind_pure r

/-- Blank lines are skipped. -/
lemma Parses.blank (n : ℕ) (h : Parses rest r) : Parses (List.replicate n [] ++ rest) r :=
  h.skip fun _ hline => .inl (List.eq_of_mem_replicate hline)

/-- So is the body of an item whose first line has been lost. -/
lemma Parses.indented (item : Item) (h : Parses rest r) : Parses (item.indented ++ rest) r := by
  refine h.skip fun line hline => .inr ?_
  cases item with
  | struct name body =>
      obtain ⟨t, -, rfl⟩ := List.mem_map.mp hline
      exact ⟨t, rfl⟩
  | app header body =>
      obtain ⟨t, -, rfl⟩ := List.mem_map.mp hline
      exact ⟨t, rfl⟩
  | interface name body =>
      obtain ⟨t, -, rfl⟩ := List.mem_map.mp hline
      exact ⟨t, rfl⟩
  | syscall signature => exact absurd hline List.not_mem_nil

/-- An item is parsed first, and then what it leaves. -/
lemma Parses.item (item : Item) (hrest : Unindented rest)
    (h : Parses (if item.takesLine then rest.tail else rest) r) :
    Parses (item.head :: item.indented ++ rest) (do
      let definition ← item.meaning
      let definitions ← r
      pure (definition :: definitions)) := by
  intro fuel hfuel
  obtain ⟨n, rfl⟩ := Nat.exists_eq_add_one_of_ne_zero (Nat.ne_of_gt (Nat.zero_lt_of_lt hfuel))
  have hleft : (if item.takesLine then rest.tail else rest).length < n := by
    have htail : rest.tail.length ≤ rest.length := List.length_tail ▸ Nat.sub_le _ _
    simp only [List.cons_append, List.length_cons, List.length_append] at hfuel
    split
    · omega
    · omega
  rw [List.cons_append, parseLines, parseNext_item item hrest]
  simp only [bind_assoc, pure_bind, h n hleft, Option.toList_some, List.singleton_append]

/-- The first line of an item is not indented. -/
lemma unindented_head (item : Item) (rest : List (List Char)) : Unindented (item.head :: rest) := by
  intro line hline
  obtain rfl := Option.some.inj hline
  cases item with
  | struct name body => rfl
  | app header body => rfl
  | interface name body => rfl
  | syscall signature => rfl

lemma unindented_layoutLines (n : ℕ) (layout : List (Item × ℕ)) :
    Unindented (List.replicate n [] ++ layoutLines layout) := by
  cases n with
  | zero =>
      cases layout with
      | nil => exact fun line hline => absurd hline (Option.not_mem_none line)
      | cons p layout => exact unindented_head p.1 _
  | succ n =>
      intro line hline
      obtain rfl := Option.some.inj hline
      rfl

lemma layoutLines_cons (item : Item) (gap : ℕ) (layout : List (Item × ℕ)) :
    layoutLines ((item, gap) :: layout) =
      item.head :: item.indented ++ (List.replicate gap [] ++ layoutLines layout) := by
  rw [layoutLines, List.flatMap_cons, List.append_assoc, layoutLines]

/-- If the line that is taken is blank, or none is taken, everything behind the item is parsed. -/
lemma Parses.cons {item : Item} {gap : ℕ} {layout : List (Item × ℕ)}
    (hgap : item.takesLine → gap = 0 → layout = []) (h : Parses (layoutLines layout) r) :
    Parses (layoutLines ((item, gap) :: layout)) (do
      let definition ← item.meaning
      let definitions ← r
      pure (definition :: definitions)) := by
  rw [layoutLines_cons]
  refine Parses.item item (unindented_layoutLines gap layout) ?_
  split
  case isTrue htakes =>
      cases gap with
      | zero =>
          obtain rfl := hgap htakes rfl
          exact h
      | succ n => exact h.blank n
  case isFalse => exact h.blank gap

/-- **The items that are kept** are parsed, with any number of blank lines between the items. -/
lemma parses_layout (layout : List (Item × ℕ)) :
    Parses (layoutLines layout) ((kept layout).mapM Item.meaning) := by
  induction layout using kept.induct with
  | case1 => exact .nil
  | case2 p => exact Parses.cons (fun _ _ => rfl) .nil
  | case3 item gap next rest hdropped ih =>
      -- the first line of the next item ends the body
      rw [kept, if_pos hdropped, List.mapM_cons, layoutLines_cons]
      refine Parses.item item (unindented_layoutLines gap _) ?_
      rw [if_pos hdropped.1, hdropped.2, layoutLines_cons]
      exact (ih.blank next.2).indented next.1
  | case4 item gap next rest hkept ih =>
      rw [kept, if_neg hkept, List.mapM_cons]
      exact Parses.cons (fun htakes hgap => absurd ⟨htakes, hgap⟩ hkept) ih

/-! ## Which items are kept -/

/-- All of them, if they are separated. -/
lemma kept_of_spaced (layout : List (Item × ℕ)) (h : Spaced layout) :
    kept layout = layout.map Prod.fst := by
  induction layout using kept.induct with
  | case1 => rfl
  | case2 p => rfl
  | case3 item gap next rest hdropped ih => exact absurd hdropped.2 (h.1 hdropped.1)
  | case4 item gap next rest hkept ih =>
      rw [kept, if_neg hkept, ih h.2]
      rfl

lemma kept_length_le (layout : List (Item × ℕ)) : (kept layout).length ≤ layout.length := by
  induction layout using kept.induct with
  | case1 => exact le_rfl
  | case2 p => exact le_rfl
  | case3 item gap next rest hdropped ih =>
      rw [kept, if_pos hdropped]
      simp only [List.length_cons]
      omega
  | case4 item gap next rest hkept ih =>
      rw [kept, if_neg hkept]
      simp only [List.length_cons] at ih ⊢
      omega

/-- And otherwise fewer. -/
lemma spaced_of_kept (layout : List (Item × ℕ)) (h : (kept layout).length = layout.length) :
    Spaced layout := by
  induction layout using kept.induct with
  | case1 => trivial
  | case2 p => trivial
  | case3 item gap next rest hdropped ih =>
      have hle := kept_length_le rest
      rw [kept, if_pos hdropped] at h
      simp only [List.length_cons] at h
      omega
  | case4 item gap next rest hkept ih =>
      rw [kept, if_neg hkept] at h
      refine ⟨fun htakes hgap => hkept ⟨htakes, hgap⟩, ih ?_⟩
      simpa only [List.length_cons, Nat.add_right_cancel_iff] using h

/-! ## What the description says -/

/-- How many items a description has. -/
def Drvli.size (d : Drvli) : ℕ := d.interfaces.length + d.structs.length + d.syscalls.length

lemma size_ofDefinitions (definitions : List Definition) :
    (Drvli.ofDefinitions definitions).size = definitions.length := by
  induction definitions with
  | nil => rfl
  | cons definition definitions ih =>
      simp only [Drvli.size, Drvli.ofDefinitions] at ih ⊢
      cases definition with
      | struct s => simp only [List.filterMap_cons, List.length_cons]; omega
      | interface i => simp only [List.filterMap_cons, List.length_cons]; omega
      | syscall s => simp only [List.filterMap_cons, List.length_cons]; omega

lemma mapM_length {α β : Type} {f : α → Checked β} {as : List α} {bs : List β}
    (h : as.mapM f = .ok bs) : bs.length = as.length :=
  (Checked.mapM_eq_ok.mp h).length_eq.symm

/-- Resolving names loses no item. -/
lemma size_fixTypes {d d' : Drvli} (h : d.fixTypes = .ok d') : d'.size = d.size := by
  obtain ⟨interfaces, hinterfaces, h⟩ := Checked.bind_eq_ok.mp h
  obtain ⟨structs, hstructs, h⟩ := Checked.bind_eq_ok.mp h
  obtain ⟨syscalls, hsyscalls, h⟩ := Checked.bind_eq_ok.mp h
  obtain rfl := Except.ok.inj h
  rw [Drvli.size, Drvli.size, mapM_length hinterfaces, mapM_length hstructs, mapM_length hsyscalls]

/-- A description says as much as it has items. -/
lemma size_meaning {items : List Item} {d : Drvli} (h : meaning items = .ok d) :
    d.size = items.length := by
  obtain ⟨definitions, hdefinitions, h⟩ := Checked.bind_eq_ok.mp h
  rw [size_fixTypes h, size_ofDefinitions, mapM_length hdefinitions]

/-- `parse_drvli` returns what the items say that are kept. -/
lemma parseDrvli_layout {text : List Char} {layout : List (Item × ℕ)}
    (htext : Text.lines text = layoutLines layout) : parseDrvli text = meaning (kept layout) := by
  rw [parseDrvli, htext, parses_layout layout _ (Nat.lt_succ_self _), meaning]

lemma parseDrvli_eq_iff {text : List Char} {layout : List (Item × ℕ)} {d : Drvli}
    (htext : Text.lines text = layoutLines layout)
    (hd : meaning (layout.map Prod.fst) = .ok d) : parseDrvli text = .ok d ↔ Spaced layout := by
  rw [parseDrvli_layout htext]
  constructor
  · intro hkept
    refine spaced_of_kept layout ?_
    rw [← size_meaning hkept, size_meaning hd, List.length_map]
  · intro hspaced
    rw [kept_of_spaced layout hspaced, hd]

/-- **Blank lines do not matter if and only if there is one behind each app and interface.**  Two texts
with the same items that are spaced in this way have the same result, which is what the items say; and
if the items say anything, both texts have it as their result only if both are spaced. -/
theorem parseDrvli_layouts_iff {text text' : List Char} {layout layout' : List (Item × ℕ)}
    (hitems : layout.map Prod.fst = layout'.map Prod.fst)
    (htext : Text.lines text = layoutLines layout)
    (htext' : Text.lines text' = layoutLines layout') :
    (Spaced layout ∧ Spaced layout' →
      parseDrvli text = meaning (layout.map Prod.fst) ∧
        parseDrvli text' = meaning (layout.map Prod.fst)) ∧
    ∀ d, meaning (layout.map Prod.fst) = .ok d →
      (parseDrvli text = .ok d ∧ parseDrvli text' = .ok d ↔ Spaced layout ∧ Spaced layout') := by
  refine ⟨fun ⟨hspaced, hspaced'⟩ => ⟨?_, ?_⟩, fun d hd => and_congr ?_ ?_⟩
  · rw [parseDrvli_layout htext, kept_of_spaced layout hspaced]
  · rw [parseDrvli_layout htext', kept_of_spaced layout' hspaced', hitems]
  · exact parseDrvli_eq_iff htext hd
  · exact parseDrvli_eq_iff htext' (hitems ▸ hd)

/-- An interface without members and a struct with one, and so many blank lines between them. -/
def markerThenStruct (gap : ℕ) : List (Item × ℕ) :=
  [(.interface "a".toList [], gap), (.struct "b".toList ["x u8".toList], 0)]

/-- One blank line or two make no difference. -/
theorem parseDrvli_layouts_marker :
    parseDrvli "interface a\n\nstruct b\n    x u8\n".toList =
        .ok ⟨[⟨"a".toList, [], [], .interface⟩], [⟨"b".toList, [("x".toList, .u8)]⟩], []⟩ ∧
      parseDrvli "interface a\n\n\nstruct b\n    x u8".toList =
        .ok ⟨[⟨"a".toList, [], [], .interface⟩], [⟨"b".toList, [("x".toList, .u8)]⟩], []⟩ := by
  have hspaced : Spaced (markerThenStruct 1) ∧ Spaced (markerThenStruct 2) :=
    ⟨⟨fun _ => by decide, trivial⟩, ⟨fun _ => by decide, trivial⟩⟩
  have hlines : Text.lines "interface a\n\nstruct b\n    x u8\n".toList =
      layoutLines (markerThenStruct 1) := rfl
  have hlines' : Text.lines "interface a\n\n\nstruct b\n    x u8".toList =
      layoutLines (markerThenStruct 2) := rfl
  have hitems : (markerThenStruct 1).map Prod.fst = (markerThenStruct 2).map Prod.fst := rfl
  have hmeaning : meaning ((markerThenStruct 1).map Prod.fst) =
      .ok ⟨[⟨"a".toList, [], [], .interface⟩], [⟨"b".toList, [("x".toList, .u8)]⟩], []⟩ := rfl
  exact ((parseDrvli_layouts_iff hitems hlines hlines').2 _ hmeaning).mpr hspaced

/-- Without one, the struct is lost. -/
theorem not_parseDrvli_layouts :
    (markerThenStruct 0).map Prod.fst = (markerThenStruct 1).map Prod.fst ∧
      Text.lines "interface a\nstruct b\n    x u8\n".toList = layoutLines (markerThenStruct 0) ∧
      Text.lines "interface a\n\nstruct b\n    x u8\n".toList = layoutLines (markerThenStruct 1) ∧
      parseDrvli "interface a\nstruct b\n    x u8\n".toList =
        .ok ⟨[⟨"a".toList, [], [], .interface⟩], [], []⟩ ∧
      parseDrvli "interface a\n\nstruct b\n    x u8\n".toList =
        .ok ⟨[⟨"a".toList, [], [], .interface⟩], [⟨"b".toList, [("x".toList, .u8)]⟩], []⟩ :=
  ⟨rfl, rfl, rfl, rfl, rfl⟩

end Codegen

end Deravel
