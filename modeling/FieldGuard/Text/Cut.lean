/-!
# `FieldGuard.Text.Cut`: cutting a text at a character

`cut` yields the pieces between the occurrences of a separator, always at least
one; `cutFirst?` cuts at the first occurrence only. `afterLast` is the last
piece, as in the simple name of a qualified name.

* `cut_ne_nil`: there is at least one piece;
* `cut_append_sep`: cutting at a separator cuts both sides;
* `head?_cut`: the first piece ends before the first separator;
* `cutFirst?_append`: what is cut first is cut at the first separator;
* `toList_intercalate_cons`: names with dots between them, one by one.
-/

set_option autoImplicit false

namespace FieldGuard.Text

/-- The pieces between the occurrences of `sep`. -/
def cut (sep : Char) : List Char → List (List Char)
  | [] => [[]]
  | c :: rest =>
    if c = sep then [] :: cut sep rest
    else
      match cut sep rest with
      | [] => [[c]]
      | piece :: pieces => (c :: piece) :: pieces

/-- The parts before and after the first `sep`; nothing without one. -/
def cutFirst? (sep : Char) : List Char → Option (List Char × List Char)
  | [] => none
  | c :: rest =>
    if c = sep then some ([], rest)
    else (cutFirst? sep rest).map fun (before, after) => (c :: before, after)

/-- The part after the last `sep`; the whole text without one. -/
def afterLast (sep : Char) (cs : List Char) : List Char :=
  (cs.reverse.takeWhile (· ≠ sep)).reverse

/-- The texts with `sep` between them. -/
def join (sep : Char) : List (List Char) → List Char
  | [] => []
  | [piece] => piece
  | piece :: pieces => piece ++ sep :: join sep pieces

/-- The pieces of a dotted name. -/
def dotted (s : String) : List String :=
  (cut '.' s.toList).map String.ofList

/-- Last piece of a dotted name. -/
def simpleName (s : String) : String :=
  String.ofList (afterLast '.' s.toList)

theorem cut_ne_nil (sep : Char) (cs : List Char) : cut sep cs ≠ [] := by
  cases cs with
  | nil => simp [cut]
  | cons c rest =>
    rw [cut]
    split
    · simp
    · split <;> simp

/-- Cutting at a separator that is there cuts both sides by themselves. -/
theorem cut_append_sep (sep : Char) (before after : List Char) :
    cut sep (before ++ sep :: after) = cut sep before ++ cut sep after := by
  induction before with
  | nil => simp [cut]
  | cons c rest ih =>
    rw [List.cons_append, cut, cut, ih]
    split
    · rfl
    · cases hrest : cut sep rest with
      | nil => exact absurd hrest (cut_ne_nil sep rest)
      | cons piece pieces => rfl

/-- The first piece ends before the first separator. -/
theorem head?_cut (sep : Char) (cs : List Char) :
    (cut sep cs).head? = some (cs.takeWhile (· ≠ sep)) := by
  induction cs with
  | nil => rfl
  | cons c rest ih =>
    rw [cut]
    split
    · next h => simp [h]
    · next h =>
      rw [List.takeWhile_cons_of_pos (by simpa using h)]
      cases hrest : cut sep rest with
      | nil => exact absurd hrest (cut_ne_nil sep rest)
      | cons piece pieces =>
        rw [hrest] at ih
        simpa using ih

/-- A text without the separator is one piece. -/
theorem cut_of_not_mem {sep : Char} {cs : List Char} (h : sep ∉ cs) : cut sep cs = [cs] := by
  induction cs with
  | nil => rfl
  | cons c rest ih =>
    have hc : c ≠ sep := fun hc => h (hc ▸ List.mem_cons_self)
    have hrest : sep ∉ rest := fun hmem => h (List.mem_cons_of_mem _ hmem)
    rw [cut, if_neg hc, ih hrest]

theorem cutFirst?_of_not_mem {sep : Char} {cs : List Char} (h : sep ∉ cs) :
    cutFirst? sep cs = none := by
  induction cs with
  | nil => rfl
  | cons c rest ih =>
    obtain ⟨hc, hrest⟩ := List.ne_and_not_mem_of_not_mem_cons h
    rw [cutFirst?, if_neg (Ne.symm hc), ih hrest]
    rfl

theorem cutFirst?_append {sep : Char} {before : List Char} (h : sep ∉ before)
    (after : List Char) : cutFirst? sep (before ++ sep :: after) = some (before, after) := by
  induction before with
  | nil => rw [List.nil_append, cutFirst?, if_pos rfl]
  | cons c rest ih =>
    obtain ⟨hc, hrest⟩ := List.ne_and_not_mem_of_not_mem_cons h
    rw [List.cons_append, cutFirst?, if_neg (Ne.symm hc), ih hrest]
    rfl

/-- Names with dots between them are the first name, a dot, and the others. -/
theorem toList_intercalate_cons (first second : String) (rest : List String) :
    (".".intercalate (first :: second :: rest)).toList
      = first.toList ++ '.' :: (".".intercalate (second :: rest)).toList := by
  simp [String.toList_intercalate]

end FieldGuard.Text
