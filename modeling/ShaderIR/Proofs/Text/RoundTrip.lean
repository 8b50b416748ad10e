import ShaderIR.Text.Blank
import ShaderIR.Text.Quoted

/-!
# Reading back what was written

Numbers and quoted strings are written in one way and read back as they were.  The lemmas leave open
what follows, so that they can be put one after the other along a line.
-/

namespace ShaderIR.Text

/-! ## Numbers -/

theorem digitValue?_digitChar {d : Nat} (h : d < 16) : digitValue? d.digitChar = some d := by
  have hall : ∀ d, d < 16 → digitValue? (Nat.digitChar d) = some d := by decide
  exact hall d h

theorem readDigitsFrom_append (base n : Nat) (l1 l2 : List Char) : readDigitsFrom base n (l1 ++ l2)
      = (readDigitsFrom base n l1).bind fun m => readDigitsFrom base m l2 := by
  induction l1 generalizing n with
  | nil => rfl
  | cons c rest ih =>
    rw [List.cons_append, readDigitsFrom, readDigitsFrom]
    cases digitValue? c with
    | none => rfl
    | some d =>
      dsimp only
      split
      · exact ih _
      · rfl

variable {base : Nat}

theorem readDigitsFrom_toDigits (hb : 1 < base) (hle : base ≤ 16) (n : Nat) :
    readDigitsFrom base 0 (Nat.toDigits base n) = some n := by
  have hone : ∀ m d, d < base → readDigitsFrom base m [d.digitChar] = some (m * base + d) := by
    intro m d hd
    rw [readDigitsFrom, digitValue?_digitChar (by omega)]
    dsimp only
    rw [if_pos hd, readDigitsFrom]
  -- All digits but the last are those of the quotient.
  induction n using Nat.strongRecOn with
  | ind n ih =>
    by_cases hlt : n < base
    · rw [Nat.toDigits_of_lt_base hlt, hone 0 n hlt, Nat.zero_mul, Nat.zero_add]
    · have hdiv : n / base < n := Nat.div_lt_self (by omega) hb
      rw [Nat.toDigits_of_base_le hb (by omega), readDigitsFrom_append, ih _ hdiv, Option.bind_some,
        hone _ _ (Nat.mod_lt _ (by omega)), Nat.mul_comm, Nat.div_add_mod]

theorem readWord?_toDigits (hb : 1 < base) (hle : base ≤ 16) {n : Nat}
    (hn : n < UInt32.size) : readWord? base (Nat.toDigits base n) = some n.toUInt32 := by
  have hne : (Nat.toDigits base n).isEmpty = false := by
    rw [List.isEmpty_eq_false_iff]
    exact Nat.toDigits_ne_nil
  simp only [readWord?, readDigits?, hne, Bool.false_eq_true, if_false,
    readDigitsFrom_toDigits hb hle, Option.bind_eq_bind, Option.bind_some, if_pos hn]

theorem exists_digitChar_of_mem_toDigits (hb : 1 < base) {n : Nat} {c : Char}
    (h : c ∈ Nat.toDigits base n) : ∃ d, d < base ∧ c = d.digitChar := by
  induction n using Nat.strongRecOn with
  | ind n ih =>
    by_cases hlt : n < base
    · rw [Nat.toDigits_of_lt_base hlt, List.mem_singleton] at h
      exact ⟨n, hlt, h⟩
    · have hdiv : n / base < n := Nat.div_lt_self (by omega) hb
      rw [Nat.toDigits_of_base_le hb (by omega), List.mem_append, List.mem_singleton] at h
      rcases h with h | h
      · exact ih _ hdiv h
      · exact ⟨_, Nat.mod_lt _ (by omega), h⟩

/-! ## Blanks -/

theorem trimStart_of_not_isBlank {c : Char} (h : isBlank c = false) (rest : List Char) :
    trimStart (c :: rest) = c :: rest := by
  rw [trimStart, List.dropWhile_cons_of_neg (by rw [h]; exact Bool.false_ne_true)]

theorem trimStart_space (rest : List Char) : trimStart (' ' :: rest) = trimStart rest := by
  rw [trimStart, List.dropWhile_cons_of_pos (by decide), trimStart]

theorem trimStart_of_all_isBlank {l : List Char} (h : ∀ c ∈ l, isBlank c = true) :
    trimStart l = [] := by
  induction l with
  | nil => rfl
  | cons c rest ih =>
    rw [trimStart, List.dropWhile_cons_of_pos (h c List.mem_cons_self)]
    exact ih fun x hx => h x (List.mem_cons_of_mem _ hx)

theorem trim_of_not_isBlank {first last : Char} (hfirst : isBlank first = false)
    (hlast : isBlank last = false) (mid : List Char) :
    trim (first :: mid ++ [last]) = first :: mid ++ [last] := by
  rw [trim, List.cons_append, trimStart_of_not_isBlank hfirst, ← List.cons_append,
    List.reverse_append, List.reverse_singleton, List.singleton_append,
    trimStart_of_not_isBlank hlast, List.reverse_cons, List.reverse_reverse]

theorem trim_append_cons {first c : Char} (hfirst : isBlank first = false)
    (hc : isBlank c = false) (mid rest : List Char) :
    ∃ rest', trim (first :: mid ++ c :: rest) = first :: mid ++ c :: rest' := by
  -- Seen from the end, blanks go at most up to `c`.
  have hkeep : ∀ l : List Char, ∃ l', trimStart (l ++ c :: (first :: mid).reverse)
      = l' ++ c :: (first :: mid).reverse := by
    intro l
    induction l with
    | nil => exact ⟨[], trimStart_of_not_isBlank hc _⟩
    | cons d l ih =>
      cases hd : isBlank d with
      | true =>
        obtain ⟨l', hl'⟩ := ih
        refine ⟨l', ?_⟩
        rw [List.cons_append, trimStart, List.dropWhile_cons_of_pos hd]
        exact hl'
      | false => exact ⟨d :: l, trimStart_of_not_isBlank hd _⟩
  obtain ⟨l', hl'⟩ := hkeep rest.reverse
  refine ⟨l'.reverse, ?_⟩
  rw [trim, List.cons_append, trimStart_of_not_isBlank hfirst, ← List.cons_append,
    List.reverse_append, List.reverse_cons, List.append_assoc, List.singleton_append, hl',
    List.reverse_append, List.reverse_cons, List.reverse_reverse, List.append_assoc, List.singleton_append]

/-! ## Quoted strings -/

namespace Quoted

theorem digitChar_ne {d : Nat} (h : d < 16) :
    d.digitChar ≠ '\x7d' ∧ d.digitChar ≠ '+' ∧ d.digitChar ≠ '\n' := by
  have hall : ∀ d, d < 16 →
      Nat.digitChar d ≠ '\x7d' ∧ Nat.digitChar d ≠ '+' ∧ Nat.digitChar d ≠ '\n' := by decide
  exact hall d h

theorem readBody_digits (ds hex done rest : List Char) (h : ∀ c ∈ ds, c ≠ '\x7d') :
    readBody (.digits hex) done (ds ++ '\x7d' :: rest)
      = readBody (.digits (ds.reverse ++ hex)) done ('\x7d' :: rest) := by
  induction ds generalizing hex with
  | nil => rfl
  | cons c ds ih =>
    rw [List.cons_append, readBody, if_neg (h c List.mem_cons_self),
      ih (c :: hex) fun x hx => h x (List.mem_cons_of_mem _ hx), List.reverse_cons,
      List.append_assoc, List.singleton_append]

theorem codePoint?_toDigits (c : Char) : codePoint? (Nat.toDigits 16 c.toNat) = some c := by
  have hlt : c.toNat < UInt32.size := c.val.toNat_lt_size
  -- No digit is a plus sign, so none is skipped.
  have hplus : ∀ rest, Nat.toDigits 16 c.toNat ≠ '+' :: rest := by
    intro rest heq
    obtain ⟨d, hd, hc⟩ := exists_digitChar_of_mem_toDigits (by decide)
      (heq ▸ List.mem_cons_self : '+' ∈ Nat.toDigits 16 c.toNat)
    exact (digitChar_ne hd).2.1 hc.symm
  have hword : c.toNat.toUInt32.toNat = c.toNat := Nat.mod_eq_of_lt hlt
  have hread : readWord? 16 (Nat.toDigits 16 c.toNat) = some c.toNat.toUInt32 :=
    readWord?_toDigits (by decide) (by decide) hlt
  have hvalid : c.toNat.isValidChar := c.valid
  simp only [codePoint?, hread, Option.bind_eq_bind, Option.bind_some, hword, if_pos hvalid, Char.ofNat_toNat]

theorem escape_cases (c : Char) :
    (∃ k, escape c = ['\\', k] ∧ short? k = some c ∧ k ≠ 'u' ∧ k ≠ '\n') ∨
      escape c = ['\\', 'u', '\x7b'] ++ Nat.toDigits 16 c.toNat ++ ['\x7d'] ∨
      (escape c = [c] ∧ c ≠ '\x22' ∧ c ≠ '\\' ∧ c ≠ '\n') := by
  unfold escape
  iterate 6
    split
    next h => subst h; exact .inl ⟨_, rfl, by decide⟩
  rename_i hnewline hquote hslash
  split
  next => exact .inr (.inl rfl)
  next => exact .inr (.inr ⟨rfl, hquote, hslash, hnewline⟩)

theorem readBody_escape (c : Char) (done rest : List Char) :
    readBody .plain done (escape c ++ rest) = readBody .plain (c :: done) rest := by
  rcases escape_cases c with ⟨k, hk, hshort, hu, -⟩ | hcode | ⟨hself, hquote, hslash, -⟩
  · have hopen : readBody .plain done (['\\', k] ++ rest) = readBody .escaped done (k :: rest) := rfl
    rw [hk, hopen, readBody, if_neg hu, hshort]
  · have hdigits : ∀ x ∈ Nat.toDigits 16 c.toNat, x ≠ '\x7d' := by
      intro x hx
      obtain ⟨d, hd, rfl⟩ := exists_digitChar_of_mem_toDigits (by decide) hx
      exact (digitChar_ne hd).1
    have hbody := readBody_digits (Nat.toDigits 16 c.toNat) [] done rest hdigits
    rw [List.append_nil] at hbody
    have hopen : readBody .plain done (['\\', 'u', '\x7b'] ++ Nat.toDigits 16 c.toNat ++ ['\x7d'] ++ rest)
        = readBody (.digits []) done (Nat.toDigits 16 c.toNat ++ '\x7d' :: rest) := by
      rw [List.append_assoc, List.append_assoc]
      rfl
    rw [hcode, hopen, hbody, readBody, if_pos rfl, List.reverse_reverse, codePoint?_toDigits]
  · rw [hself, List.singleton_append, readBody, if_neg hquote, if_neg hslash]

/-- **A string is read back from what stands between its quotes.** -/
theorem read_escaped (s : String) (rest : List Char) :
    read (s.toList.flatMap escape ++ '\x22' :: rest) = .ok (s, rest) := by
  have hbody : ∀ (l done : List Char), readBody .plain done (l.flatMap escape ++ '\x22' :: rest)
      = .ok (String.ofList (done.reverse ++ l), rest) := by
    intro l
    induction l with
    | nil =>
      intro done
      rw [List.flatMap_nil, List.nil_append, readBody, if_pos rfl, List.append_nil]
    | cons c l ih =>
      intro done
      rw [List.flatMap_cons, List.append_assoc, readBody_escape, ih, List.reverse_cons,
        List.append_assoc, List.singleton_append]
  rw [read, hbody, List.reverse_nil, List.nil_append, String.ofList_toList]

theorem not_mem_escape (c : Char) : '\n' ∉ escape c := by
  rcases escape_cases c with ⟨k, hk, -, -, hk'⟩ | hcode | ⟨hself, -, -, hc⟩
  · rw [hk, List.mem_cons, List.mem_singleton]
    rintro (h | h)
    · cases h
    · exact hk' h.symm
  · rw [hcode, List.mem_append, List.mem_append]
    rintro ((h | h) | h)
    · exact absurd h (by decide)
    · -- The digits of a code point are digits.
      obtain ⟨d, hd, hc⟩ := exists_digitChar_of_mem_toDigits (by decide) h
      exact (digitChar_ne hd).2.2 hc.symm
    · exact absurd h (by decide)
  · rw [hself, List.mem_singleton]
    exact fun h => hc h.symm

theorem not_mem_write (s : String) : '\n' ∉ (write s).toList := by
  rw [write, String.toList_ofList, List.mem_append, List.mem_append, List.mem_flatMap]
  rintro ((h | ⟨c, -, h⟩) | h)
  · cases h with | tail _ h => cases h
  · exact not_mem_escape c h
  · cases h with | tail _ h => cases h

end Quoted

end ShaderIR.Text
