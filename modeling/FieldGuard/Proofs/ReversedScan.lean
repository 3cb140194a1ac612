import FieldGuard.Proofs.LastStep

/-!
# `FieldGuard.Proofs.ReversedScan`: a scan from the right sees what a scan from the left sees

The test for a well-formed inside goes from left to right, the search for the last step from right
to left. Both keep a quote and a depth. That they agree at every place needs no pairing of quotes
and brackets: a step back over a character undoes the step over it. A quote that is opened from the
left is closed from the right at the same character, and the other way round, and while a scan is in
a quote, both directions pass everything else. So a scan back from where the test ends goes through
all of its states again, and the test ends where the search begins, outside of everything.

A search may as well read bytes. Quotes, brackets and dots are one byte each, and a character with
more bytes has none of them among its bytes, so that the search sees the same in the bytes.

* `Scan.backward_forward`: a step back undoes a step;
* `Scan.ofRight_eq_ofLeft`: both scans agree at every place of a text that ends closed;
* `Scan.ofRight_bytesOf`, `cutBack_bytesOf`: in the bytes of a text the search sees the same, and
  cuts at the same place;
* `cutBack_cases`: the search stops at the first place from the right at which it can;
* `scans_agree`: what this says of well-formed expressions, and where their last step is cut off.
-/

set_option autoImplicit false

namespace FieldGuard.Binding

open Text

namespace Scan

/-! ### Steps back -/

/-- The quote that a scan is in, if any, is a quote character. -/
def IsSound (s : Scan) : Prop :=
  ∀ q ∈ s.quote, isQuote q = true

theorem isSound_start : IsSound {} := by
  intro q hq
  cases hq

section

variable {s : Scan} (h : s.IsSound)
include h

theorem IsSound.step (opening closing c : Char) : (s.step opening closing c).IsSound := by
  obtain ⟨depth, quote⟩ := s
  cases quote with
  | some q =>
    simp only [Scan.step]
    split
    · intro _ hq
      cases hq
    · exact h
  | none =>
    simp only [Scan.step]
    split
    · next hquote =>
      intro q hq
      cases hq
      exact hquote
    · split
      · exact h
      · split <;> exact h

theorem IsSound.foldl (opening closing : Char) (cs : List Char) :
    (cs.foldl (Scan.step opening closing) s).IsSound := by
  induction cs generalizing s with
  | nil => exact h
  | cons c rest ih => exact ih (h.step opening closing c)

/-- A step back over a character undoes the step over it. -/
theorem backward_forward (c : Char) : (s.forward c).backward c = s := by
  obtain ⟨depth, quote⟩ := s
  cases quote with
  | some q =>
    -- The step back opens the quote again, as what closed it is a quote character.
    have hq : isQuote q = true := h q rfl
    by_cases hc : c = q
    · subst hc
      simp [forward, backward, step, hq]
    · simp [forward, backward, step, hc]
  | none =>
    by_cases hquote : isQuote c = true
    · simp [forward, backward, step, hquote]
    · by_cases hopen : c = '['
      · subst hopen
        simp [forward, backward, step, hquote]
      · by_cases hclose : c = ']'
        · subst hclose
          simp [forward, backward, step, hquote]
        · simp [forward, backward, step, hquote, hopen, hclose]

/-- So a whole scan is undone from its last character to its first. -/
theorem foldr_backward_foldl_forward (cs : List Char) :
    cs.foldr (fun c t => t.backward c) (cs.foldl forward s) = s := by
  induction cs generalizing s with
  | nil => rfl
  | cons c rest ih =>
    -- The first step is taken first and undone last.
    have hstep : (s.forward c).IsSound := h.step '[' ']' c
    rw [List.foldl_cons, List.foldr_cons, ih hstep, backward_forward h]

end

/-! ### Both scans of a text -/

/-- The scan from left to right after a text. -/
def ofLeft (cs : List Char) : Scan :=
  cs.foldl forward {}

/-- The scan from right to left after a text. -/
def ofRight (cs : List Char) : Scan :=
  cs.foldr (fun c s => s.backward c) {}

theorem ofLeft_append (xs ys : List Char) : ofLeft (xs ++ ys) = ys.foldl forward (ofLeft xs) :=
  List.foldl_append

theorem ofRight_eq_foldl (cs : List Char) : ofRight cs = cs.reverse.foldl backward {} :=
  List.foldl_reverse.symm

theorem isSound_ofLeft (cs : List Char) : (ofLeft cs).IsSound :=
  isSound_start.foldl '[' ']' cs

/-- Where the scan from the left ends outside of quotes and brackets, both scans agree at every
place. -/
theorem ofRight_eq_ofLeft {xs ys : List Char} (h : ofLeft (xs ++ ys) = {}) :
    ofRight ys = ofLeft xs := by
  have hback := foldr_backward_foldl_forward (isSound_ofLeft xs) ys
  rwa [← ofLeft_append, h] at hback

/-! ### Depths -/

/-- The scan so many brackets deeper. -/
def deeper (k : Int) (s : Scan) : Scan :=
  { s with depth := s.depth + k }

theorem forward_deeper (k : Int) (s : Scan) (c : Char) :
    (s.deeper k).forward c = (s.forward c).deeper k := by
  obtain ⟨depth, quote⟩ := s
  cases quote with
  | some q =>
    by_cases hc : c = q <;> simp [forward, step, deeper, hc]
  | none =>
    simp only [forward, step, deeper]
    split
    · rfl
    · split
      · simp only [Scan.mk.injEq, and_true]
        omega
      · split
        · simp only [Scan.mk.injEq, and_true]
          omega
        · rfl

/-- A text in brackets is scanned as it is outside of them, only deeper. -/
theorem foldl_forward_deeper (k : Int) (s : Scan) (cs : List Char) :
    cs.foldl forward (s.deeper k) = (cs.foldl forward s).deeper k := by
  induction cs generalizing s with
  | nil => rfl
  | cons c rest ih => rw [List.foldl_cons, List.foldl_cons, forward_deeper, ih]

end Scan

open Scan

/-- The test accepts a text when the scan of it ends closed. -/
theorem foldl_forward_of_isBalancedFrom {s : Scan} {cs : List Char}
    (h : isBalancedFrom s cs = true) : cs.foldl forward s = {} := by
  induction cs generalizing s with
  | nil =>
    obtain ⟨depth, quote⟩ := s
    simpa [isBalancedFrom, isClosed] using h
  | cons c rest ih =>
    rw [isBalancedFrom] at h
    split at h
    · cases h
    · split at h
      · cases h
      · exact ih h

/-- The test accepts a text only if no more brackets are closed than are open. -/
theorem depth_nonneg_of_isBalancedFrom {s : Scan} {xs ys : List Char} (hs : 0 ≤ s.depth)
    (h : isBalancedFrom s (xs ++ ys) = true) : 0 ≤ (xs.foldl forward s).depth := by
  induction xs generalizing s with
  | nil => exact hs
  | cons c rest ih =>
    rw [List.cons_append, isBalancedFrom] at h
    split at h
    · cases h
    · split at h
      · cases h
      · next hdepth => exact ih (Int.not_lt.1 hdepth) h

namespace Balanced

variable {cs : List Char} (h : Balanced cs)
include h

theorem ofLeft_eq : ofLeft cs = {} :=
  foldl_forward_of_isBalancedFrom (isBalanced_iff.2 h)

theorem depth_nonneg {p : List Char} (hp : p <+: cs) : 0 ≤ (ofLeft p).depth := by
  obtain ⟨q, rfl⟩ := hp
  exact depth_nonneg_of_isBalancedFrom (Int.le_refl 0) (isBalanced_iff.2 h)

end Balanced

/-! ### Bytes -/

/-- The bytes of a character, each as the character with its number. -/
def encoded (c : Char) : List Char :=
  (String.utf8EncodeChar c).map Char.ofUInt8

/-- The bytes of a text, each as the character with its number. -/
def bytesOf (cs : List Char) : List Char :=
  cs.flatMap encoded

/-- Whether a character is one byte, as all that mean something to a scan are. -/
def isAscii (c : Char) : Bool :=
  c.toNat < 128

theorem toNat_ofUInt8 (b : UInt8) : (Char.ofUInt8 b).toNat = b.toNat := rfl

theorem encoded_of_isAscii {c : Char} (h : isAscii c = true) : encoded c = [c] := by
  have hsmall : c.toNat < 128 := of_decide_eq_true h
  have hsize : c.utf8Size = 1 := by
    rw [Char.utf8Size_eq_one_iff, UInt32.le_iff_toNat_le]
    exact Nat.le_of_lt_succ hsmall
  have hbyte : Char.ofUInt8 c.val.toUInt8 = c := by
    refine Char.toNat_inj.1 ?_
    rw [toNat_ofUInt8, UInt32.toNat_toUInt8]
    exact Nat.mod_eq_of_lt (Nat.lt_trans hsmall (by decide))
  rw [encoded, String.utf8EncodeChar_eq_singleton hsize, List.map_singleton, hbyte]

/-- None of the bytes of a character with more than one is a character by itself. -/
theorem isAscii_of_mem_encoded {c b : Char} (h : isAscii c = false) (hb : b ∈ encoded c) :
    isAscii b = false := by
  have hlarge : ¬ c.val.toNat ≤ 0x7f := fun hle =>
    of_decide_eq_false h (Nat.lt_succ_of_le hle)
  obtain ⟨byte, hbyte, rfl⟩ := List.mem_map.1 hb
  have hhigh : 128 ≤ byte.toNat := by
    -- Two, three or four bytes, each with its highest bit set.
    simp only [String.utf8EncodeChar, if_neg hlarge] at hbyte
    split at hbyte
    · simp only [List.mem_cons, List.not_mem_nil, or_false] at hbyte
      rcases hbyte with rfl | rfl <;> rw [UInt8.toNat_ofNat'] <;> omega
    · split at hbyte <;> simp only [List.mem_cons, List.not_mem_nil, or_false] at hbyte
      · rcases hbyte with rfl | rfl | rfl <;> rw [UInt8.toNat_ofNat'] <;> omega
      · rcases hbyte with rfl | rfl | rfl | rfl <;> rw [UInt8.toNat_ofNat'] <;> omega
  rw [isAscii, toNat_ofUInt8]
  exact decide_eq_false (Nat.not_lt.2 hhigh)

theorem isAscii_of_isQuote {q : Char} (h : isQuote q = true) : isAscii q = true := by
  rcases eq_of_isQuote h with rfl | rfl <;> decide

/-- A scan stays as it is on what is no character of one byte. -/
theorem step_of_not_isAscii {opening closing c : Char} {s : Scan} (hs : s.IsSound)
    (ho : isAscii opening = true) (hcl : isAscii closing = true) (hc : isAscii c = false) :
    s.step opening closing c = s := by
  have hne : ∀ d, isAscii d = true → c ≠ d := by
    rintro d hd rfl
    rw [hc] at hd
    cases hd
  have hquote : isQuote c = false := by
    by_contra h
    exact hne c (isAscii_of_isQuote (by simpa using h)) rfl
  obtain ⟨depth, quote⟩ := s
  cases quote with
  | some q => simp [step, hne q (isAscii_of_isQuote (hs q rfl))]
  | none => simp [step, hquote, hne opening ho, hne closing hcl]

theorem foldl_eq_self {α β : Type} {f : α → β → α} {a : α} {bs : List β}
    (h : ∀ b ∈ bs, f a b = a) : bs.foldl f a = a := by
  induction bs with
  | nil => rfl
  | cons b rest ih =>
    rw [List.foldl_cons, h b List.mem_cons_self]
    exact ih fun d hd => h d (List.mem_cons_of_mem _ hd)

/-- A scan passes the bytes of a character, in either order, as it passes the character. -/
theorem foldl_step_encoded {opening closing : Char} {s : Scan} (hs : s.IsSound)
    (ho : isAscii opening = true) (hcl : isAscii closing = true) (c : Char) :
    (encoded c).foldl (step opening closing) s = s.step opening closing c ∧
      (encoded c).reverse.foldl (step opening closing) s = s.step opening closing c := by
  by_cases hc : isAscii c = true
  · rw [encoded_of_isAscii hc]
    exact ⟨rfl, rfl⟩
  · rw [Bool.not_eq_true] at hc
    have hpass : ∀ b ∈ encoded c, s.step opening closing b = s := fun b hb =>
      step_of_not_isAscii hs ho hcl (isAscii_of_mem_encoded hc hb)
    rw [step_of_not_isAscii hs ho hcl hc]
    exact ⟨foldl_eq_self hpass, foldl_eq_self fun b hb => hpass b (List.mem_reverse.1 hb)⟩

theorem reverse_bytesOf (cs : List Char) :
    (bytesOf cs).reverse = cs.reverse.flatMap fun c => (encoded c).reverse :=
  List.reverse_flatMap

/-- Texts in place of characters are scanned as the characters are, if each of them is. -/
theorem foldl_step_flatMap {opening closing : Char} {f : Char → List Char}
    (hf : ∀ s : Scan, s.IsSound → ∀ c,
      (f c).foldl (step opening closing) s = s.step opening closing c)
    {s : Scan} (hs : s.IsSound) (cs : List Char) :
    (cs.flatMap f).foldl (step opening closing) s = cs.foldl (step opening closing) s := by
  induction cs generalizing s with
  | nil => rfl
  | cons c rest ih =>
    rw [List.flatMap_cons, List.foldl_append, hf s hs, ih (hs.step opening closing c),
      List.foldl_cons]

namespace Scan

/-- From left to right the bytes of a text are scanned as the text is. -/
theorem ofLeft_bytesOf (cs : List Char) : ofLeft (bytesOf cs) = ofLeft cs :=
  foldl_step_flatMap (fun _ hs c => (foldl_step_encoded hs rfl rfl c).1) isSound_start cs

/-- And so they are from right to left. -/
theorem ofRight_bytesOf (cs : List Char) : ofRight (bytesOf cs) = ofRight cs := by
  rw [ofRight_eq_foldl, ofRight_eq_foldl, reverse_bytesOf]
  exact foldl_step_flatMap (fun _ hs c => (foldl_step_encoded hs rfl rfl c).2) isSound_start _

end Scan

theorem cutBack_flatMap {stops : Scan → Char → Bool}
    (hstops : ∀ s c, isAscii c = false → stops s c = false) {s : Scan} (hs : s.IsSound)
    (left passed : List Char) :
    cutBack stops s (left.flatMap fun c => (encoded c).reverse) (bytesOf passed)
      = (cutBack stops s left passed).map (Prod.map bytesOf bytesOf) := by
  induction left generalizing s passed with
  | nil => rfl
  | cons c left ih =>
    by_cases hc : isAscii c = true
    · have hpassed : bytesOf (c :: passed) = c :: bytesOf passed := by
        rw [bytesOf, List.flatMap_cons, encoded_of_isAscii hc]
        rfl
      rw [List.flatMap_cons, encoded_of_isAscii hc, List.reverse_singleton, List.singleton_append]
      by_cases hstop : stops s c = true
      · have hbefore : (left.flatMap fun c => (encoded c).reverse).reverse
            = bytesOf left.reverse := by
          rw [List.reverse_eq_iff, reverse_bytesOf, List.reverse_reverse]
        rw [cutBack_stop hstop, cutBack_stop hstop, hbefore]
        rfl
      · rw [Bool.not_eq_true] at hstop
        rw [cutBack_pass hstop, cutBack_pass hstop, ← hpassed]
        exact ih (hs.step ']' '[' c) (c :: passed)
    · -- No byte of the character is stopped at, and none changes the scan.
      rw [Bool.not_eq_true] at hc
      have hstep : s.backward c = s := step_of_not_isAscii hs rfl rfl hc
      have hpass : ∀ b ∈ (encoded c).reverse, stops s b = false ∧ s.backward b = s := by
        intro b hb
        have hb' := isAscii_of_mem_encoded hc (List.mem_reverse.1 hb)
        exact ⟨hstops s b hb', step_of_not_isAscii hs rfl rfl hb'⟩
      rw [List.flatMap_cons, cutBack_passAll hpass, List.reverse_reverse,
        cutBack_pass (hstops s c hc), hstep]
      exact ih hs (c :: passed)

/-- The search cuts the bytes of a text where it cuts the text. -/
theorem cutBack_bytesOf {stops : Scan → Char → Bool}
    (hstops : ∀ s c, isAscii c = false → stops s c = false) (cs : List Char) :
    cutBack stops {} (bytesOf cs).reverse []
      = (cutBack stops {} cs.reverse []).map (Prod.map bytesOf bytesOf) := by
  rw [reverse_bytesOf]
  exact cutBack_flatMap hstops isSound_start cs.reverse []

theorem opensLast_of_not_isAscii (s : Scan) (c : Char) (h : isAscii c = false) :
    opensLast s c = false := by
  have hc : c ≠ '[' := by
    rintro rfl
    cases h
  simp [opensLast, hc]

theorem isDot_of_not_isAscii (s : Scan) (c : Char) (h : isAscii c = false) :
    isDot s c = false := by
  have hc : c ≠ '.' := by
    rintro rfl
    cases h
  simp [isDot, hc]

/-! ### Where the search stops -/

/-- The search from the right does not stop in a text. -/
def Passes (stops : Scan → Char → Bool) (cs : List Char) : Prop :=
  ∀ before c after, cs = before ++ c :: after → stops (ofRight after) c = false

section

variable {stops : Scan → Char → Bool}

theorem passes_nil : Passes stops [] := by
  intro before c after heq
  simp at heq

theorem Passes.cons {c : Char} {cs : List Char} (h : Passes stops cs)
    (hc : stops (ofRight cs) c = false) : Passes stops (c :: cs) := by
  intro before d after heq
  rcases List.cons_eq_append_iff.1 heq with ⟨rfl, hcons⟩ | ⟨rest, rfl, hcs⟩
  · cases hcons
    exact hc
  · exact h rest d after hcs

/-- The search stops at the first place from the right at which it can, if there is one. -/
theorem cutBack_cases {passed : List Char} (h : Passes stops passed) (left : List Char) :
    match cutBack stops (ofRight passed) left passed with
    | some (before, after) => ∃ c, left.reverse ++ passed = before ++ c :: after ∧
        stops (ofRight after) c = true ∧ Passes stops after
    | none => Passes stops (left.reverse ++ passed) := by
  -- What has been passed so far is a text in which the search does not stop.
  induction left generalizing passed with
  | nil => exact h
  | cons c left ih =>
    have htext : (c :: left).reverse ++ passed = left.reverse ++ c :: passed := by simp
    rw [htext]
    by_cases hstop : stops (ofRight passed) c = true
    · rw [cutBack_stop hstop]
      exact ⟨c, rfl, hstop, h⟩
    · rw [Bool.not_eq_true] at hstop
      rw [cutBack_pass hstop]
      exact ih (h.cons hstop)

end

/-- A bracket that is closed by the end of the text: between a text that closes everything and a
content in which the depth does not come back to 0, up to a bracket outside of quotes. -/
structure IsMatching (before content : List Char) : Prop where
  outside : ofLeft before = {}
  inside : ∀ p, p <+: content → 0 < (ofLeft (before ++ '[' :: p)).depth
  closed : ofLeft (before ++ '[' :: content) = ⟨1, none⟩

/-- A dot outside of quotes and brackets, with no other one after it. -/
structure IsLastDot (before after : List Char) : Prop where
  outside : ofLeft before = {}
  last : ∀ p q, after = p ++ '.' :: q → ofLeft (before ++ '.' :: p) ≠ {}

theorem isMatching_of_balanced {before content : List Char} (hb : Balanced before)
    (hc : Balanced content) : IsMatching before content := by
  -- One bracket deeper than outside of the brackets.
  have hdeeper : ∀ p, ofLeft (before ++ '[' :: p) = (ofLeft p).deeper 1 := by
    intro p
    rw [ofLeft_append, hb.ofLeft_eq, List.foldl_cons]
    exact foldl_forward_deeper 1 {} p
  refine ⟨hb.ofLeft_eq, fun p hp => ?_, ?_⟩
  · have hdepth : 0 ≤ (ofLeft p).depth := hc.depth_nonneg hp
    rw [hdeeper]
    show 0 < (ofLeft p).depth + 1
    omega
  · rw [hdeeper, hc.ofLeft_eq]
    rfl

/-- The search for a dot sees one where the scan from the left is outside of everything. -/
theorem isDot_ofRight_iff {xs ys : List Char} (h : ofLeft (xs ++ '.' :: ys) = {}) :
    isDot (ofRight ys) '.' = true ↔ ofLeft xs = {} := by
  have hdot : ofRight ys = ofLeft (xs ++ ['.']) := ofRight_eq_ofLeft (by simpa using h)
  have hpass : ofLeft (xs ++ ['.']) = (ofLeft xs).forward '.' := ofLeft_append xs ['.']
  rw [hdot, hpass]
  constructor
  · intro hstop
    -- A dot changes no scan, so what is seen after it was there before it.
    have hclosed : (ofLeft xs).forward '.' = {} := by
      generalize (ofLeft xs).forward '.' = s at hstop
      obtain ⟨depth, quote⟩ := s
      simpa [isDot, and_comm] using hstop
    rw [← backward_forward (isSound_ofLeft xs) '.', hclosed]
    rfl
  · intro hclosed
    rw [hclosed]
    rfl

/-! ### Where the last step is cut off -/

section

variable {cs : List Char} (h : IsInside cs)
include h

/-- An inside that ends in a bracket is cut at the one that matches it. -/
theorem splitLast_of_bracket (hlast : cs.getLast? = some ']') :
    ∃ before content, cs = before ++ '[' :: content ++ [']'] ∧ IsMatching before content ∧
      splitLast cs = (nonBlank? before, bracketStep content) := by
  obtain ⟨before, content, rfl, hbefore, hcontent⟩ := h.balanced.exists_bracket hlast
  refine ⟨before, content, rfl, isMatching_of_balanced hbefore hcontent, ?_⟩
  rw [splitLast, cutLast?_bracket hcontent]

/-- Any other one is cut at the last dot outside of quotes and brackets, and not at all without
such a dot. -/
theorem splitLast_of_not_bracket (hlast : cs.getLast? ≠ some ']') :
    (∃ before after, cs = before ++ '.' :: after ∧ IsLastDot before after ∧
      splitLast cs = (nonBlank? before, .property (String.ofList (trim after)))) ∨
    ((∀ before after, cs = before ++ '.' :: after → ofLeft before ≠ {}) ∧
      splitLast cs = (none, .property (String.ofList cs))) := by
  have hclosed := h.balanced.ofLeft_eq
  have hstart : Passes isDot [] := passes_nil
  have hcases := cutBack_cases hstart cs.reverse
  rw [List.reverse_reverse, List.append_nil] at hcases
  have hcut : cutLast? cs = (cutBack isDot {} cs.reverse []).map fun cut =>
      (cut.1, .property (String.ofList (trim cut.2))) := if_neg hlast
  rw [splitLast, hcut]
  cases hfound : cutBack isDot {} cs.reverse [] with
  | some cut =>
    obtain ⟨before, after⟩ := cut
    rw [show ofRight [] = {} from rfl, hfound] at hcases
    obtain ⟨c, rfl, hstop, hpasses⟩ := hcases
    obtain rfl : c = '.' := by
      simp only [isDot, Bool.and_eq_true, beq_iff_eq] at hstop
      exact hstop.1.2
    refine .inl ⟨before, after, rfl, ⟨(isDot_ofRight_iff hclosed).1 hstop, ?_⟩, rfl⟩
    -- At any later dot outside of everything the search would have stopped before.
    rintro p q rfl hopen
    have hstop' := (isDot_ofRight_iff (by simpa using hclosed)).2 hopen
    rw [hpasses p '.' q rfl] at hstop'
    cases hstop'
  | none =>
    rw [show ofRight [] = {} from rfl, hfound] at hcases
    refine .inr ⟨?_, by rw [Option.map_none, h.trimmed]⟩
    rintro before after rfl hopen
    have hstop := (isDot_ofRight_iff hclosed).2 hopen
    rw [hcases before '.' after rfl] at hstop
    cases hstop

end

/-- In a well-formed expression the search from the right sees what the test from the left sees.

At every place of the inside both have the same quote and the same depth, also when the search reads
the bytes of the characters, and at every place between two bytes. In the bytes the search for a
bracket and the search for a dot cut where they cut the text. So the last step is cut off at the
bracket that matches the one at the end, or else at the last dot outside of quotes and brackets,
or else nothing is cut off. What is left is a well-formed expression again. -/
theorem scans_agree {b : Binding} (h : b.isTerm = true) :
    (∀ xs ys, b.inside = xs ++ ys →
      ofRight ys = ofLeft xs ∧ ofRight (bytesOf ys) = ofLeft xs) ∧
    (∀ us vs, bytesOf b.inside = us ++ vs → ofRight vs = ofLeft us) ∧
    (∀ stops ∈ [opensLast, isDot], cutBack stops {} (bytesOf b.inside).reverse []
      = (cutBack stops {} b.inside.reverse []).map (Prod.map bytesOf bytesOf)) ∧
    (b.inside.getLast? = some ']' →
      ∃ before content, b.inside = before ++ '[' :: content ++ [']'] ∧
        IsMatching before content ∧
        splitLast b.inside = (nonBlank? before, bracketStep content)) ∧
    (b.inside.getLast? ≠ some ']' →
      (∃ before after, b.inside = before ++ '.' :: after ∧ IsLastDot before after ∧
        splitLast b.inside = (nonBlank? before, .property (String.ofList (trim after)))) ∨
      ((∀ before after, b.inside = before ++ '.' :: after → ofLeft before ≠ {}) ∧
        splitLast b.inside = (none, .property (String.ofList b.inside)))) ∧
    ∀ base, b.base? = some base → base.isTerm = true := by
  have hinside := isInside_inside h
  have hclosed := hinside.balanced.ofLeft_eq
  refine ⟨?_, ?_, ?_, splitLast_of_bracket hinside, splitLast_of_not_bracket hinside, ?_⟩
  · intro xs ys heq
    have hagree : ofRight ys = ofLeft xs := ofRight_eq_ofLeft (by rwa [heq] at hclosed)
    exact ⟨hagree, (ofRight_bytesOf ys).trans hagree⟩
  · -- A place inside a character has no place in the text, but the bytes end closed, too.
    intro us vs heq
    have hbytes : ofLeft (us ++ vs) = {} := by rw [← heq, ofLeft_bytesOf, hclosed]
    exact ofRight_eq_ofLeft hbytes
  · intro stops hmem
    refine cutBack_bytesOf ?_ b.inside
    simp only [List.mem_cons, List.not_mem_nil, or_false] at hmem
    rcases hmem with rfl | rfl
    · exact opensLast_of_not_isAscii
    · exact isDot_of_not_isAscii
  · intro base hbase
    obtain ⟨hsplit, hwrap⟩ := splitLast_of_base? hbase
    rw [hwrap]
    exact isTerm_wrap (isInside_of_splitLast hinside hsplit)

/-- A quote in a quoted key, a bracket in one, a key in brackets, and a letter of two bytes. -/
theorem scans_agree_nested :
    let b : Binding := ⟨"#\x7b größe[\"it's [\"][ 'a.b]' ][maß.x] \x7d"⟩
    b.isTerm = true ∧
    (ofRight "s [\"][ 'a.b]' ][maß.x]".toList = ⟨1, some '"'⟩ ∧
      ofLeft "größe[\"it'".toList = ⟨1, some '"'⟩) ∧
    ofRight "s [\"][ 'a.b]' ][maß.x]".toList = ofLeft "größe[\"it'".toList ∧
    splitLast b.inside = (some "größe[\"it's [\"][ 'a.b]' ]".toList, .dynamic "maß.x") ∧
    (∃ before content, b.inside = before ++ '[' :: content ++ [']'] ∧
      IsMatching before content ∧
      splitLast b.inside = (nonBlank? before, bracketStep content)) ∧
    ∀ base, b.base? = some base → base.isTerm = true := by
  intro b
  have hterm : b.isTerm = true := by decide +kernel
  obtain ⟨hplaces, -, -, hbracket, -, hbase⟩ := scans_agree hterm
  have hcut := hplaces "größe[\"it'".toList "s [\"][ 'a.b]' ][maß.x]".toList (by decide +kernel)
  exact ⟨hterm, by decide +kernel, hcut.1, by decide +kernel, hbracket (by decide +kernel), hbase⟩

end FieldGuard.Binding
