import Mathlib.Data.List.Basic
import Mathlib.Tactic.Common

/-!
# Cutting texts

A text is a list of characters; only `lines` needs to know which ones.

* `Text.splitOnce`: the parts before and after the first separator.
* `Text.splitPair`: the pieces between the separators, where a separator is two characters.
* `Text.lines`, `Text.unlines`: the lines of a text, and the text of lines.
* `Text.splitPair_clean_iff`, `Text.splitPair_piece`: the pieces are free of the first character of the
  separator if and only if the text has it in separators only, and cutting a piece again does nothing.
* `Text.splitPair_intercalate`, `Text.lines_unlines`: what was joined is cut into the same pieces.
-/

namespace Text

variable {α : Type} [DecidableEq α]

/-! ## One separator -/

/-- What stands before the first `sep` and what stands after it. -/
def splitOnce (sep : α) : List α → Option (List α × List α)
  | [] => none
  | c :: text =>
      if c = sep then some ([], text) else (splitOnce sep text).map fun p => (c :: p.1, p.2)

lemma splitOnce_eq_none {sep : α} {text : List α} : splitOnce sep text = none ↔ sep ∉ text := by
  induction text with
  | nil => simp [splitOnce]
  | cons c text ih =>
      by_cases hc : c = sep
      · simp [splitOnce, hc]
      · simp [splitOnce, hc, ih, Ne.symm hc]

lemma splitOnce_eq_some {sep : α} {text head tail : List α} :
    splitOnce sep text = some (head, tail) ↔ text = head ++ sep :: tail ∧ sep ∉ head := by
  induction text generalizing head with
  | nil => simp [splitOnce]
  | cons c text ih =>
      by_cases hc : c = sep
      · subst hc
        rw [splitOnce, if_pos rfl, Option.some.injEq, Prod.mk.injEq]
        constructor
        · rintro ⟨rfl, rfl⟩
          exact ⟨rfl, List.not_mem_nil⟩
        · rintro ⟨heq, hmem⟩
          cases head with
          | nil => exact ⟨rfl, (List.cons.inj heq).2⟩
          | cons d head => exact absurd ((List.cons.inj heq).1 ▸ List.mem_cons_self) hmem
      · rw [splitOnce, if_neg hc, Option.map_eq_some_iff]
        constructor
        · rintro ⟨⟨front, back⟩, hsplit, heq⟩
          cases heq
          obtain ⟨rfl, hmem⟩ := ih.mp hsplit
          refine ⟨rfl, fun h => ?_⟩
          rcases List.mem_cons.mp h with h | h
          · exact hc h.symm
          · exact hmem h
        · rintro ⟨heq, hmem⟩
          cases head with
          | nil => exact absurd (List.cons.inj heq).1 hc
          | cons d head =>
              obtain ⟨rfl, rfl⟩ := List.cons.inj heq
              exact ⟨(head, tail), ih.mpr ⟨rfl, fun h => hmem (List.mem_cons_of_mem _ h)⟩, rfl⟩

/-! ## Separators of two characters -/

/-- Puts a character in front of the first piece. -/
def consHead (c : α) : List (List α) → List (List α)
  | [] => [[c]]
  | piece :: pieces => (c :: piece) :: pieces

/-- The pieces between the places where `a` is followed by `b`. -/
def splitPair (a b : α) : List α → List (List α)
  | [] => [[]]
  | [c] => [[c]]
  | c :: d :: text =>
      if c = a ∧ d = b then [] :: splitPair a b text else consHead c (splitPair a b (d :: text))

/-- Every `a` is followed by `b`. -/
def Followed (a b : α) : List α → Prop
  | [] => True
  | c :: text => (c = a → text.head? = some b) ∧ Followed a b text

instance (a b : α) : (text : List α) → Decidable (Followed a b text)
  | [] => inferInstanceAs (Decidable True)
  | c :: text =>
      haveI := instDecidableFollowed a b text
      inferInstanceAs (Decidable ((c = a → text.head? = some b) ∧ Followed a b text))

omit [DecidableEq α] in
lemma followed_iff {a b : α} {text : List α} :
    Followed a b text ↔ ∀ head tail, text = head ++ a :: tail → tail.head? = some b := by
  induction text with
  | nil => simp [Followed]
  | cons c text ih =>
      rw [Followed, ih]
      constructor
      · rintro ⟨hfirst, hrest⟩ head tail heq
        cases head with
        | nil =>
            obtain ⟨rfl, rfl⟩ := List.cons.inj heq
            exact hfirst rfl
        | cons d head => exact hrest head tail (List.cons.inj heq).2
      · intro h
        exact ⟨fun hc => h [] text (by rw [hc]; rfl),
          fun head tail heq => h (c :: head) tail (by rw [heq]; rfl)⟩

variable {a b : α}

omit [DecidableEq α] in
lemma followed_of_notMem {text : List α} (h : a ∉ text) : Followed a b text := by
  rw [followed_iff]
  rintro head tail rfl
  exact absurd (List.mem_append_right _ List.mem_cons_self) h

/-- There is a first piece, and it starts as the text does unless it is empty. -/
lemma splitPair_head (text : List α) : ∃ piece pieces, splitPair a b text = piece :: pieces ∧
    (piece = [] ∨ ∃ rest, piece = text.head?.toList ++ rest) := by
  induction text using splitPair.induct a b with
  | case1 => exact ⟨[], [], rfl, Or.inl rfl⟩
  | case2 c => exact ⟨[c], [], rfl, Or.inr ⟨[], rfl⟩⟩
  | case3 c d text hsep _ =>
      exact ⟨[], splitPair a b text, by rw [splitPair, if_pos hsep], Or.inl rfl⟩
  | case4 c d text hsep ih =>
      obtain ⟨piece, pieces, hpieces, -⟩ := ih
      refine ⟨c :: piece, pieces, ?_, Or.inr ⟨piece, rfl⟩⟩
      rw [splitPair, if_neg hsep, hpieces]
      rfl

/-- A piece is no longer than the text. -/
lemma splitPair_length_le {text piece : List α} (h : piece ∈ splitPair a b text) :
    piece.length ≤ text.length := by
  induction text using splitPair.induct a b generalizing piece with
  | case1 => exact Nat.le_of_eq (congrArg List.length (List.mem_singleton.mp h))
  | case2 c => exact Nat.le_of_eq (congrArg List.length (List.mem_singleton.mp h))
  | case3 c d text hsep ih =>
      rw [splitPair, if_pos hsep, List.mem_cons] at h
      rcases h with rfl | h
      · exact Nat.zero_le _
      · exact Nat.le_trans (ih h) (Nat.le_add_right _ 2)
  | case4 c d text hsep ih =>
      obtain ⟨first, pieces, hpieces, -⟩ := splitPair_head (a := a) (b := b) (d :: text)
      rw [hpieces] at ih
      rw [splitPair, if_neg hsep, hpieces, consHead, List.mem_cons] at h
      rcases h with rfl | h
      · exact Nat.succ_le_succ (ih List.mem_cons_self)
      · exact Nat.le_trans (ih (List.mem_cons_of_mem _ h)) (Nat.le_succ _)

/-- **The pieces are free of `a` if and only if every `a` of the text is part of a separator.** -/
theorem splitPair_clean_iff (hne : a ≠ b) (text : List α) :
    (∀ piece ∈ splitPair a b text, a ∉ piece) ↔ Followed a b text := by
  induction text using splitPair.induct a b with
  | case1 => simp [splitPair, Followed]
  | case2 c => simp [splitPair, Followed, eq_comm]
  | case3 c d text hsep ih =>
      obtain ⟨rfl, rfl⟩ := hsep
      rw [splitPair, if_pos ⟨rfl, rfl⟩, List.forall_mem_cons, ih]
      simp [Followed, hne.symm]
  | case4 c d text hsep ih =>
      obtain ⟨piece, pieces, hpieces, -⟩ := splitPair_head (a := a) (b := b) (d :: text)
      rw [hpieces, List.forall_mem_cons] at ih
      rw [splitPair, if_neg hsep, hpieces, consHead, List.forall_mem_cons, Followed, ← ih]
      have hfirst : (c = a → (d :: text).head? = some b) ↔ c ≠ a := by
        refine ⟨fun h hc => hsep ⟨hc, Option.some.inj (h hc)⟩, fun h hc => absurd hc h⟩
      rw [hfirst, List.mem_cons, not_or, and_assoc, ne_comm]

/-- **Cutting a piece again does nothing.** -/
theorem splitPair_piece {text piece : List α} (h : piece ∈ splitPair a b text) :
    splitPair a b piece = [piece] := by
  induction text using splitPair.induct a b generalizing piece with
  | case1 =>
      rw [splitPair, List.mem_singleton] at h
      rw [h, splitPair]
  | case2 c =>
      rw [splitPair, List.mem_singleton] at h
      rw [h, splitPair]
  | case3 c d text hsep ih =>
      rw [splitPair, if_pos hsep, List.mem_cons] at h
      rcases h with rfl | h
      · rfl
      · exact ih h
  | case4 c d text hsep ih =>
      obtain ⟨first, pieces, hpieces, hfirst⟩ := splitPair_head (a := a) (b := b) (d :: text)
      rw [splitPair, if_neg hsep, hpieces, consHead, List.mem_cons] at h
      rw [hpieces] at ih
      rcases h with rfl | h
      · rcases hfirst with rfl | ⟨rest, rfl⟩
        · rfl
        · have hsame := ih List.mem_cons_self
          simp only [List.head?_cons, Option.toList_some, List.singleton_append] at hsame ⊢
          rw [splitPair, if_neg hsep, hsame, consHead]
      · exact ih (List.mem_cons_of_mem _ h)

/-- A piece without `a` is all there is to cut. -/
lemma splitPair_of_notMem {text : List α} (h : a ∉ text) : splitPair a b text = [text] := by
  induction text using splitPair.induct a b with
  | case1 => rfl
  | case2 c => rfl
  | case3 c d text hsep _ => exact absurd (hsep.1 ▸ List.mem_cons_self) h
  | case4 c d text hsep ih =>
      rw [splitPair, if_neg hsep, ih fun hmem => h (List.mem_cons_of_mem _ hmem)]
      rfl

/-- A piece without `a` is cut off at the first separator. -/
lemma splitPair_append {piece : List α} (h : a ∉ piece) (text : List α) :
    splitPair a b (piece ++ a :: b :: text) = piece :: splitPair a b text := by
  induction piece with
  | nil => rw [List.nil_append, splitPair, if_pos ⟨rfl, rfl⟩]
  | cons c piece ih =>
      obtain ⟨hc, hpiece⟩ := not_or.mp (mt List.mem_cons.mpr h)
      obtain ⟨d, rest, hrest⟩ : ∃ d rest, piece ++ a :: b :: text = d :: rest :=
        List.exists_cons_of_ne_nil (by simp)
      have hsep : ¬ (c = a ∧ d = b) := fun hsep => hc hsep.1.symm
      have hcut := ih hpiece
      rw [hrest] at hcut
      rw [List.cons_append, hrest, splitPair, if_neg hsep, hcut, consHead]

/-- **Pieces that were joined are cut again**, if they have no `a`. -/
theorem splitPair_intercalate {pieces : List (List α)} (hpieces : pieces ≠ [])
    (hclean : ∀ piece ∈ pieces, a ∉ piece) : splitPair a b ([a, b].intercalate pieces) = pieces := by
  induction pieces with
  | nil => exact absurd rfl hpieces
  | cons piece pieces ih =>
      obtain ⟨hpiece, hclean⟩ := List.forall_mem_cons.mp hclean
      cases pieces with
      | nil => rw [List.intercalate_singleton, splitPair_of_notMem hpiece]
      | cons next pieces =>
          have hcut := ih (List.cons_ne_nil _ _) hclean
          rw [List.intercalate_cons_cons, List.append_assoc, List.cons_append, List.cons_append,
            List.nil_append, splitPair_append hpiece, hcut]

/-! ## Lines -/

/-- A line without the `\r` in front of its `\n`. -/
def dropCarriageReturn (line : List Char) : List Char :=
  if line.getLast? = some '\r' then line.dropLast else line

/-- The lines of a text of which `line` has been read already. -/
def linesFrom (line : List Char) : List Char → List (List Char)
  | [] => if line = [] then [] else [line]
  | c :: text =>
      if c = '\n' then dropCarriageReturn line :: linesFrom [] text
      else linesFrom (line ++ [c]) text

/-- The lines of a text, which end with `\n` or `\r\n`; after the last one there need not be any. -/
def lines (text : List Char) : List (List Char) := linesFrom [] text

/-- The text of lines. -/
def unlines (ls : List (List Char)) : List Char := ls.flatMap (· ++ ['\n'])

lemma linesFrom_append {line : List Char} (h : '\n' ∉ line) (start text : List Char) :
    linesFrom start (line ++ '\n' :: text) =
      dropCarriageReturn (start ++ line) :: linesFrom [] text := by
  induction line generalizing start with
  | nil => rw [List.nil_append, linesFrom, if_pos rfl, List.append_nil]
  | cons c line ih =>
      obtain ⟨hc, hline⟩ := not_or.mp (mt List.mem_cons.mpr h)
      rw [List.cons_append, linesFrom, if_neg (Ne.symm hc), ih hline, List.append_assoc,
        List.singleton_append]

/-- **Lines without line breaks are read back.** -/
theorem lines_unlines {ls : List (List Char)} (h : ∀ line ∈ ls, '\n' ∉ line ∧ '\r' ∉ line) :
    lines (unlines ls) = ls := by
  induction ls with
  | nil => rfl
  | cons line ls ih =>
      obtain ⟨⟨hbreak, hreturn⟩, hrest⟩ := List.forall_mem_cons.mp h
      have hdrop : dropCarriageReturn line = line :=
        if_neg fun hlast => hreturn (List.mem_of_getLast? hlast)
      rw [lines, unlines, List.flatMap_cons, List.append_assoc, List.singleton_append,
        linesFrom_append hbreak, List.nil_append, hdrop]
      exact congrArg _ (ih hrest)

end Text
