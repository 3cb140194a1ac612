import FieldGuard.Binding.Scan

/-!
# `FieldGuard.Proofs.Balance`: quotes and brackets pair up from both sides

Whether an inside is well-formed is tested from left to right. The last step is looked for
from right to left, with a quote and a depth of its own. `Balanced` says without a scan
what is well-formed, so that both scans can be followed along it.

* `isBalanced_iff`: the test from left to right accepts exactly the balanced texts;
* `Balanced.cutBack_append`: the search from right to left passes a balanced text in
  brackets and is afterwards where it was before;
* `Balanced.induction_right`: balanced texts from their end on, as the search reads them;
* `Balanced.of_cutBack`: what is left of a dot that the search finds is balanced.
-/

set_option autoImplicit false

namespace FieldGuard.Binding

/-- Whether a character means nothing to a scan: no quote, no brace and no bracket. -/
def isPlain (c : Char) : Bool :=
  !isQuote c && !isBrace c && c != '[' && c != ']'

/-- Texts in which quotes and brackets pair up and no brace stands outside quotes. -/
inductive Balanced : List Char → Prop where
  | nil : Balanced []
  | plain {c : Char} {rest : List Char} (hc : isPlain c = true) (hrest : Balanced rest) :
      Balanced (c :: rest)
  | quoted {q : Char} {inner rest : List Char} (hq : isQuote q = true) (hinner : q ∉ inner)
      (hrest : Balanced rest) : Balanced (q :: inner ++ q :: rest)
  | bracketed {inner rest : List Char} (hinner : Balanced inner) (hrest : Balanced rest) :
      Balanced ('[' :: inner ++ ']' :: rest)

namespace Balanced

theorem append {xs ys : List Char} (hx : Balanced xs) (hy : Balanced ys) :
    Balanced (xs ++ ys) := by
  induction hx with
  | nil => exact hy
  | plain hc _ ih => exact .plain hc ih
  | quoted hq hinner _ ih =>
    rw [List.append_assoc, List.cons_append]
    exact .quoted hq hinner ih
  | bracketed hinner _ _ ih =>
    rw [List.append_assoc, List.cons_append]
    exact .bracketed hinner ih

theorem of_plain {cs : List Char} (h : ∀ c ∈ cs, isPlain c = true) : Balanced cs := by
  induction cs with
  | nil => exact .nil
  | cons c rest ih =>
    exact .plain (h c List.mem_cons_self) (ih fun d hd => h d (List.mem_cons_of_mem _ hd))

theorem quote {q : Char} {inner : List Char} (hq : isQuote q = true) (hinner : q ∉ inner) :
    Balanced (q :: inner ++ [q]) :=
  .quoted hq hinner .nil

theorem bracket {inner : List Char} (hinner : Balanced inner) :
    Balanced ('[' :: inner ++ [']']) :=
  .bracketed hinner .nil

end Balanced

/-! ### Single characters -/

section

variable {c q : Char} (d : Int)

theorem ne_of_isPlain (h : isPlain c = true) :
    isQuote c = false ∧ isBrace c = false ∧ c ≠ '[' ∧ c ≠ ']' := by
  simpa [isPlain, and_assoc] using h

theorem eq_of_isQuote (h : isQuote q = true) : q = '\'' ∨ q = '"' := by
  simpa [isQuote] using h

theorem ne_brackets_of_isQuote (h : isQuote q = true) :
    isBrace q = false ∧ q ≠ '[' ∧ q ≠ ']' := by
  rcases eq_of_isQuote h with rfl | rfl <;> decide

/-- Outside quotes a scan passes a plain character and stays as it is, in either direction. -/
theorem step_plain (opening closing : Char) (h : isPlain c = true) (ho : c ≠ opening)
    (hc : c ≠ closing) : Scan.step opening closing ⟨d, none⟩ c = ⟨d, none⟩ := by
  simp [Scan.step, (ne_of_isPlain h).1, ho, hc]

theorem step_quote (opening closing : Char) (h : isQuote q = true) :
    Scan.step opening closing ⟨d, none⟩ q = ⟨d, some q⟩ := by
  simp [Scan.step, h]

end

/-! ### From left to right -/

section

variable (d : Nat)

theorem isBalancedFrom_plain {c : Char} (h : isPlain c = true) (rest : List Char) :
    isBalancedFrom ⟨d, none⟩ (c :: rest) = isBalancedFrom ⟨d, none⟩ rest := by
  obtain ⟨-, hbrace, ho, hc⟩ := ne_of_isPlain h
  have hstep : Scan.forward ⟨d, none⟩ c = ⟨d, none⟩ := step_plain d '[' ']' h ho hc
  rw [isBalancedFrom, hstep]
  simp [hbrace]

theorem isBalancedFrom_quote {q : Char} (h : isQuote q = true) (rest : List Char) :
    isBalancedFrom ⟨d, none⟩ (q :: rest) = isBalancedFrom ⟨d, some q⟩ rest := by
  have hstep : Scan.forward ⟨d, none⟩ q = ⟨d, some q⟩ := step_quote d '[' ']' h
  rw [isBalancedFrom, hstep]
  simp [(ne_brackets_of_isQuote h).1]

theorem isBalancedFrom_inside {c q : Char} (rest : List Char) :
    isBalancedFrom ⟨d, some q⟩ (c :: rest)
      = isBalancedFrom ⟨d, if c = q then none else some q⟩ rest := by
  have hstep : Scan.forward ⟨d, some q⟩ c = ⟨d, if c = q then none else some q⟩ := by
    by_cases h : c = q <;> simp [Scan.forward, Scan.step, h]
  rw [isBalancedFrom, hstep]
  simp

theorem isBalancedFrom_open (rest : List Char) :
    isBalancedFrom ⟨d, none⟩ ('[' :: rest) = isBalancedFrom ⟨(d + 1 : Nat), none⟩ rest := by
  have hstep : Scan.forward ⟨d, none⟩ '[' = ⟨(d + 1 : Nat), none⟩ := by
    simp [Scan.forward, Scan.step, isQuote]
  rw [isBalancedFrom, hstep]
  simp [isBrace]
  omega

theorem isBalancedFrom_close (rest : List Char) :
    isBalancedFrom ⟨(d + 1 : Nat), none⟩ (']' :: rest) = isBalancedFrom ⟨d, none⟩ rest := by
  have hstep : Scan.forward ⟨(d + 1 : Nat), none⟩ ']' = ⟨d, none⟩ := by
    simp [Scan.forward, Scan.step, isQuote]
  rw [isBalancedFrom, hstep]
  simp [isBrace]

end

/-- A quoted text is passed up to the quote that closes it. -/
theorem isBalancedFrom_quoted (d : Nat) {q : Char} {inner : List Char} (h : q ∉ inner)
    (rest : List Char) :
    isBalancedFrom ⟨d, some q⟩ (inner ++ q :: rest) = isBalancedFrom ⟨d, none⟩ rest := by
  induction inner with
  | nil => rw [List.nil_append, isBalancedFrom_inside, if_pos rfl]
  | cons c inner ih =>
    obtain ⟨hc, hinner⟩ := List.ne_and_not_mem_of_not_mem_cons h
    rw [List.cons_append, isBalancedFrom_inside, if_neg (Ne.symm hc), ih hinner]

/-- The test is where it was before once it has passed a balanced text. -/
theorem Balanced.isBalancedFrom_append {cs : List Char} (h : Balanced cs) (d : Nat)
    (rest : List Char) :
    isBalancedFrom ⟨d, none⟩ (cs ++ rest) = isBalancedFrom ⟨d, none⟩ rest := by
  induction h generalizing d rest with
  | nil => rfl
  | plain hc _ ih => rw [List.cons_append, isBalancedFrom_plain d hc, ih]
  | quoted hq hinner _ ih =>
    simp only [List.append_assoc, List.cons_append]
    rw [isBalancedFrom_quote d hq, isBalancedFrom_quoted d hinner, ih]
  | bracketed _ _ ihinner ih =>
    simp only [List.append_assoc, List.cons_append]
    rw [isBalancedFrom_open, ihinner, isBalancedFrom_close, ih]

/-- Texts that close so many brackets, each after a balanced text, and end balanced. -/
inductive Closes : Nat → List Char → Prop where
  | done {cs : List Char} (h : Balanced cs) : Closes 0 cs
  | close {d : Nat} {inner rest : List Char} (hinner : Balanced inner) (hrest : Closes d rest) :
      Closes (d + 1) (inner ++ ']' :: rest)

theorem Closes.append {d : Nat} {xs ys : List Char} (hx : Balanced xs) (hy : Closes d ys) :
    Closes d (xs ++ ys) := by
  cases hy with
  | done h => exact .done (hx.append h)
  | close hinner hrest =>
    rw [← List.append_assoc]
    exact .close (hx.append hinner) hrest

/-- What the test accepts closes the brackets that are open, and the quote if there is one. -/
theorem closes_of_isBalancedFrom (cs : List Char) (d : Nat) :
    (isBalancedFrom ⟨d, none⟩ cs = true → Closes d cs) ∧
      ∀ q, isBalancedFrom ⟨d, some q⟩ cs = true →
        ∃ inner rest, cs = inner ++ q :: rest ∧ q ∉ inner ∧ Closes d rest := by
  -- Over all scans at once, since every character leads to another one.
  induction cs generalizing d with
  | nil =>
    refine ⟨fun h => ?_, fun q h => ?_⟩
    · have hd : d = 0 := by simpa [isBalancedFrom, Scan.isClosed] using h
      subst hd
      exact .done .nil
    · simp [isBalancedFrom, Scan.isClosed] at h
  | cons c rest ih =>
    refine ⟨fun h => ?_, fun q h => ?_⟩
    · by_cases hquote : isQuote c = true
      · rw [isBalancedFrom_quote d hquote] at h
        obtain ⟨inner, rest', rfl, hinner, hrest⟩ := (ih d).2 c h
        simpa using (Closes.append (.quote hquote hinner) hrest)
      · by_cases hopen : c = '['
        · -- The bracket is closed by the first one that the rest closes.
          subst hopen
          rw [isBalancedFrom_open] at h
          cases (ih (d + 1)).1 h with
          | close hinner hrest => simpa using Closes.append (.bracket hinner) hrest
        · by_cases hclose : c = ']'
          · subst hclose
            cases d with
            | zero => simp [isBalancedFrom, Scan.forward, Scan.step, isQuote] at h
            | succ d =>
              rw [isBalancedFrom_close] at h
              exact .close .nil ((ih d).1 h)
          · by_cases hbrace : isBrace c = true
            · simp [isBalancedFrom, hbrace] at h
            · have hplain : isPlain c = true := by
                simp [isPlain, hquote, hbrace, hopen, hclose]
              rw [isBalancedFrom_plain d hplain] at h
              exact Closes.append (.plain hplain .nil) ((ih d).1 h)
    · rw [isBalancedFrom_inside] at h
      by_cases hc : c = q
      · subst hc
        rw [if_pos rfl] at h
        exact ⟨[], rest, rfl, List.not_mem_nil, (ih d).1 h⟩
      · rw [if_neg hc] at h
        obtain ⟨inner, rest', rfl, hinner, hrest⟩ := (ih d).2 q h
        exact ⟨c :: inner, rest', rfl, List.not_mem_cons_of_ne_of_not_mem (Ne.symm hc) hinner,
          hrest⟩

/-- The test accepts exactly the balanced texts. -/
theorem isBalanced_iff {cs : List Char} : isBalanced cs = true ↔ Balanced cs := by
  constructor
  · intro h
    cases (closes_of_isBalancedFrom cs 0).1 h with
    | done h => exact h
  · intro h
    have hpassed := h.isBalancedFrom_append 0 []
    rw [List.append_nil] at hpassed
    exact hpassed

/-! ### From right to left -/

section

variable {stops : Scan → Char → Bool} {s : Scan} {c : Char}

theorem cutBack_pass (h : stops s c = false) (left passed : List Char) :
    cutBack stops s (c :: left) passed = cutBack stops (s.backward c) left (c :: passed) := by
  rw [cutBack, h]
  rfl

theorem cutBack_stop (h : stops s c = true) (left passed : List Char) :
    cutBack stops s (c :: left) passed = some (left.reverse, passed) := by
  rw [cutBack, if_pos h]

/-- Characters that leave the scan as it is are passed all at once. -/
theorem cutBack_passAll {cs : List Char} (h : ∀ c ∈ cs, stops s c = false ∧ s.backward c = s)
    (left passed : List Char) :
    cutBack stops s (cs ++ left) passed = cutBack stops s left (cs.reverse ++ passed) := by
  induction cs generalizing passed with
  | nil => rfl
  | cons c rest ih =>
    obtain ⟨hpass, hstep⟩ := h c List.mem_cons_self
    rw [List.cons_append, cutBack_pass hpass, hstep,
      ih fun d hd => h d (List.mem_cons_of_mem _ hd)]
    simp

end

/-- A search that does not stop in quotes, and in brackets at most at the one that opens them. -/
structure PassesInner (stops : Scan → Char → Bool) : Prop where
  quoted : ∀ (d : Int) (q c : Char), stops ⟨d, some q⟩ c = false
  bracketed : ∀ (d : Nat) (c : Char), (c = '[' → 0 < d) → stops ⟨(d + 1 : Nat), none⟩ c = false

theorem passesInner_opensLast : PassesInner opensLast where
  quoted _ _ _ := rfl
  bracketed d c h := by
    by_cases hc : c = '['
    · have hd := h hc
      simp [opensLast]
      omega
    · simp [opensLast, hc]

theorem passesInner_isDot : PassesInner isDot where
  quoted _ _ _ := rfl
  bracketed d c _ := by
    simp [isDot]
    omega

section

variable {stops : Scan → Char → Bool} (hstops : PassesInner stops)
include hstops

/-- A quoted text is passed from its closing quote to its opening one. -/
theorem cutBack_quoted (d : Int) {q : Char} {inner : List Char} (h : q ∉ inner)
    (left passed : List Char) :
    cutBack stops ⟨d, some q⟩ (inner ++ q :: left) passed
      = cutBack stops ⟨d, none⟩ left (q :: inner.reverse ++ passed) := by
  -- What is not passed yet comes nearest first, so the inner text is read as it stands here.
  induction inner generalizing passed with
  | nil =>
    have hstep : Scan.backward ⟨d, some q⟩ q = ⟨d, none⟩ := by simp [Scan.backward, Scan.step]
    rw [List.nil_append, cutBack_pass (hstops.quoted d q q), hstep]
    rfl
  | cons c inner ih =>
    obtain ⟨hc, hinner⟩ := List.ne_and_not_mem_of_not_mem_cons h
    have hstep : Scan.backward ⟨d, some q⟩ c = ⟨d, some q⟩ := by
      simp [Scan.backward, Scan.step, Ne.symm hc]
    rw [List.cons_append, cutBack_pass (hstops.quoted d q c), hstep, ih hinner]
    simp

/-- In brackets the search passes a balanced text. -/
theorem Balanced.cutBack_append {cs : List Char} (h : Balanced cs) (d : Nat)
    (left passed : List Char) :
    cutBack stops ⟨(d + 1 : Nat), none⟩ (cs.reverse ++ left) passed
      = cutBack stops ⟨(d + 1 : Nat), none⟩ left (cs ++ passed) := by
  induction h generalizing d left passed with
  | nil => rfl
  | @plain c rest hc _ ih =>
    obtain ⟨-, -, ho, hcl⟩ := ne_of_isPlain hc
    have hpass : stops ⟨(d + 1 : Nat), none⟩ c = false :=
      hstops.bracketed d c fun heq => absurd heq ho
    have hstep : Scan.backward ⟨(d + 1 : Nat), none⟩ c = ⟨(d + 1 : Nat), none⟩ :=
      step_plain _ ']' '[' hc hcl ho
    rw [List.reverse_cons, List.append_assoc, ih, List.singleton_append, cutBack_pass hpass, hstep]
    rfl
  | @quoted q inner rest hq hinner _ ih =>
    have hpass : stops ⟨(d + 1 : Nat), none⟩ q = false :=
      hstops.bracketed d q fun heq => absurd heq (ne_brackets_of_isQuote hq).2.1
    have hstep : Scan.backward ⟨(d + 1 : Nat), none⟩ q = ⟨(d + 1 : Nat), some q⟩ :=
      step_quote _ ']' '[' hq
    have hinner' : q ∉ inner.reverse := by simpa using hinner
    have hreverse : (q :: inner ++ q :: rest).reverse ++ left
        = rest.reverse ++ q :: (inner.reverse ++ q :: left) := by simp
    rw [hreverse, ih, cutBack_pass hpass, hstep, cutBack_quoted hstops _ hinner']
    simp
  | @bracketed inner rest _ _ ihinner ih =>
    have hclose : Scan.backward ⟨(d + 1 : Nat), none⟩ ']' = ⟨(d + 1 + 1 : Nat), none⟩ := by
      simp [Scan.backward, Scan.step, isQuote]
    have hopen : Scan.backward ⟨(d + 1 + 1 : Nat), none⟩ '[' = ⟨(d + 1 : Nat), none⟩ := by
      simp [Scan.backward, Scan.step, isQuote]
    -- One bracket deeper, so the opening one is not the one that is looked for.
    have hpass : stops ⟨(d + 1 + 1 : Nat), none⟩ '[' = false :=
      hstops.bracketed (d + 1) '[' fun _ => Nat.succ_pos d
    have hpass' : stops ⟨(d + 1 : Nat), none⟩ ']' = false :=
      hstops.bracketed d ']' fun heq => absurd heq (by decide)
    have hreverse : ('[' :: inner ++ ']' :: rest).reverse ++ left
        = rest.reverse ++ ']' :: (inner.reverse ++ '[' :: left) := by simp
    rw [hreverse, ih, cutBack_pass hpass', hclose, ihinner, cutBack_pass hpass, hopen]
    simp

end

/-- The bracket that matches the one at the end of a text is the one before its content. -/
theorem cutBack_bracket {content : List Char} (h : Balanced content) (before : List Char) :
    cutBack opensLast {} (before ++ '[' :: content ++ [']']).reverse []
      = some (before, content ++ [']']) := by
  have hreverse : (before ++ '[' :: content ++ [']']).reverse
      = ']' :: (content.reverse ++ '[' :: before.reverse) := by simp
  have hstep : Scan.backward {} ']' = ⟨(0 + 1 : Nat), none⟩ := by
    simp [Scan.backward, Scan.step, isQuote]
  rw [hreverse, cutBack_pass rfl, hstep, h.cutBack_append passesInner_opensLast,
    cutBack_stop rfl, List.reverse_reverse]

/-- The search for a dot passes the characters of a name. -/
theorem cutBack_undotted {cs : List Char} (h : ∀ c ∈ cs, isPlain c = true ∧ c ≠ '.')
    (left passed : List Char) :
    cutBack isDot {} (cs ++ left) passed = cutBack isDot {} left (cs.reverse ++ passed) := by
  refine cutBack_passAll (fun c hc => ?_) left passed
  obtain ⟨hplain, hdot⟩ := h c hc
  obtain ⟨-, -, ho, hcl⟩ := ne_of_isPlain hplain
  exact ⟨by simp [isDot, hdot], step_plain 0 ']' '[' hplain hcl ho⟩

/-- The last dot of a text is the one before its last name. -/
theorem cutBack_name {name : List Char} (h : ∀ c ∈ name, isPlain c = true ∧ c ≠ '.')
    (before : List Char) :
    cutBack isDot {} (before ++ '.' :: name).reverse [] = some (before, name) := by
  have hname : ∀ c ∈ name.reverse, isPlain c = true ∧ c ≠ '.' := by simpa using h
  have hreverse : (before ++ '.' :: name).reverse = name.reverse ++ '.' :: before.reverse := by
    simp
  rw [hreverse, cutBack_undotted hname, cutBack_stop rfl, List.reverse_reverse,
    List.reverse_reverse, List.append_nil]

/-- A text of such characters has no dot to be found. -/
theorem cutBack_bare {name : List Char} (h : ∀ c ∈ name, isPlain c = true ∧ c ≠ '.') :
    cutBack isDot {} name.reverse [] = none := by
  have hname : ∀ c ∈ name.reverse, isPlain c = true ∧ c ≠ '.' := by simpa using h
  have hpassed := cutBack_undotted hname [] []
  rwa [List.append_nil] at hpassed

/-! ### From the end of a balanced text -/

namespace Balanced

/-- Balanced texts grow at their end as well: by a plain character, by a quoted text, or by a
balanced text in brackets. -/
@[elab_as_elim]
theorem induction_right {motive : (cs : List Char) → Balanced cs → Prop} (nil : motive [] .nil)
    (plain : ∀ {before : List Char} {c : Char} (hb : Balanced before) (hc : isPlain c = true),
      motive before hb → motive (before ++ [c]) (hb.append (.plain hc .nil)))
    (quoted : ∀ {before inner : List Char} {q : Char} (hb : Balanced before)
      (hq : isQuote q = true) (hinner : q ∉ inner),
      motive before hb → motive (before ++ (q :: inner ++ [q])) (hb.append (.quote hq hinner)))
    (bracketed : ∀ {before inner : List Char} (hb : Balanced before) (hinner : Balanced inner),
      motive before hb → motive (before ++ ('[' :: inner ++ [']'])) (hb.append (.bracket hinner)))
    {cs : List Char} (h : Balanced cs) : motive cs h := by
  -- What is left of the text grows by what the text loses at its beginning.
  suffices hgrow : ∀ before (hb : Balanced before), motive before hb →
      motive (before ++ cs) (hb.append h) from hgrow [] .nil nil
  induction h with
  | nil =>
    intro before hb hm
    simpa using hm
  | plain hc _ ih =>
    intro before hb hm
    simpa using ih _ _ (plain hb hc hm)
  | quoted hq hinner _ ih =>
    intro before hb hm
    simpa using ih _ _ (quoted hb hq hinner hm)
  | bracketed hinner _ _ ih =>
    intro before hb hm
    simpa using ih _ _ (bracketed hb hinner hm)

/-- A balanced text that ends in a bracket ends in a balanced text in brackets. -/
theorem exists_bracket {cs : List Char} (h : Balanced cs) (hlast : cs.getLast? = some ']') :
    ∃ before content, cs = before ++ '[' :: content ++ [']'] ∧ Balanced before ∧
      Balanced content := by
  induction h using induction_right with
  | nil => simp at hlast
  | plain _ hc _ =>
    rw [List.getLast?_concat] at hlast
    exact absurd (Option.some.inj hlast) (ne_of_isPlain hc).2.2.2
  | quoted _ hq _ _ =>
    rw [← List.append_assoc, List.getLast?_concat] at hlast
    exact absurd (Option.some.inj hlast) (ne_brackets_of_isQuote hq).2.2
  | bracketed hb hinner _ => exact ⟨_, _, (List.append_assoc ..).symm, hb, hinner⟩

/-- What is left of a dot that is found in a balanced text is balanced. -/
theorem of_cutBack {cs passed before after : List Char} (h : Balanced cs)
    (hcut : cutBack isDot {} cs.reverse passed = some (before, after)) : Balanced before := by
  -- Along the text from its end. The search can stop at a plain character only, with a balanced
  -- text in front of it, and it is back outside after a quoted text or one in brackets.
  induction h using induction_right generalizing passed with
  | nil => simp [cutBack] at hcut
  | @plain left c hleft hc ih =>
    rw [List.reverse_append, List.reverse_singleton, List.singleton_append] at hcut
    by_cases hdot : isDot {} c = true
    · rw [cutBack_stop hdot, List.reverse_reverse] at hcut
      cases hcut
      exact hleft
    · obtain ⟨-, -, ho, hcl⟩ := ne_of_isPlain hc
      have hstep : Scan.backward {} c = {} := step_plain 0 ']' '[' hc hcl ho
      rw [cutBack_pass (by simpa using hdot), hstep] at hcut
      exact ih hcut
  | @quoted left inner q hleft hq hinner ih =>
    have hreverse : (left ++ (q :: inner ++ [q])).reverse
        = q :: (inner.reverse ++ q :: left.reverse) := by simp
    have hpass : isDot {} q = false := by rcases eq_of_isQuote hq with rfl | rfl <;> rfl
    have hstep : Scan.backward {} q = ⟨0, some q⟩ := step_quote 0 ']' '[' hq
    rw [hreverse, cutBack_pass hpass, hstep,
      cutBack_quoted passesInner_isDot 0 (by simpa using hinner)] at hcut
    exact ih hcut
  | @bracketed left inner hleft hinner ih =>
    have hreverse : (left ++ ('[' :: inner ++ [']'])).reverse
        = ']' :: (inner.reverse ++ '[' :: left.reverse) := by simp
    have hclose : Scan.backward {} ']' = ⟨(0 + 1 : Nat), none⟩ := by
      simp [Scan.backward, Scan.step, isQuote]
    have hopen : Scan.backward ⟨(0 + 1 : Nat), none⟩ '[' = {} := by
      simp [Scan.backward, Scan.step, isQuote]
    rw [hreverse, cutBack_pass rfl, hclose, hinner.cutBack_append passesInner_isDot,
      cutBack_pass rfl, hopen] at hcut
    exact ih hcut

end Balanced

end FieldGuard.Binding
