import ItemAttrs.Proofs.Text.Boundary

/-!
# What quoted text says

Quoted text can be read back, whichever characters are hidden: each character has a form of its
own that shows where it ends, and none begins like the delimiter.

* `escapeChar_cases` lists the three forms, and `eq_of_escapeChar` tells characters apart;
* `eq_of_toDigits`: numbers are told apart by their digits, in any base up to sixteen;
* `eq_of_quote`: of two texts that agree and begin with quoted text, the quoted texts agree, and
  so does what follows them.
-/

namespace ItemAttrs.Text

/-! ### Digits -/

theorem digitChar_inj {m n : Nat} (hm : m < 16) (hn : n < 16) (h : m.digitChar = n.digitChar) :
    m = n := by
  have hall : ∀ m < 16, ∀ n < 16, Nat.digitChar m = Nat.digitChar n → m = n := by decide
  exact hall m hm n hn h

theorem toDigits_ne_singleton {b n : Nat} (hb : 1 < b) (hn : b ≤ n) (d : Char) :
    Nat.toDigits b n ≠ [d] := by
  rw [Nat.toDigits_of_base_le hb hn]
  intro h
  exact Nat.toDigits_ne_nil (List.append_inj' (h.trans (List.nil_append [d]).symm) rfl).1

/-- **Numbers with the same digits are equal.** -/
theorem eq_of_toDigits {b m n : Nat} (hb : 1 < b) (hb' : b ≤ 16)
    (h : Nat.toDigits b m = Nat.toDigits b n) : m = n := by
  induction m using Nat.strongRecOn generalizing n with
  | ind m ih =>
    -- a number below the base has one digit, and other numbers have more
    by_cases hm : m < b
    · rw [Nat.toDigits_of_lt_base hm] at h
      by_cases hn : n < b
      · rw [Nat.toDigits_of_lt_base hn] at h
        exact digitChar_inj (by omega) (by omega) (List.singleton_inj.mp h)
      · exact absurd h.symm (toDigits_ne_singleton hb (Nat.le_of_not_lt hn) _)
    · rw [Nat.toDigits_of_base_le hb (Nat.le_of_not_lt hm)] at h
      by_cases hn : n < b
      · rw [← Nat.toDigits_of_base_le hb (Nat.le_of_not_lt hm), Nat.toDigits_of_lt_base hn] at h
        exact absurd h (toDigits_ne_singleton hb (Nat.le_of_not_lt hm) _)
      · rw [Nat.toDigits_of_base_le hb (Nat.le_of_not_lt hn)] at h
        -- the last digit is the remainder, and those before it are the digits of the quotient
        obtain ⟨hfront, hlast⟩ := List.append_inj' h rfl
        have hdiv : m / b = n / b := ih (m / b) (Nat.div_lt_self (by omega) hb) hfront
        have hmod : m % b = n % b := by
          have hm' := Nat.mod_lt m (Nat.lt_of_succ_lt hb)
          have hn' := Nat.mod_lt n (Nat.lt_of_succ_lt hb)
          exact digitChar_inj (by omega) (by omega) (List.singleton_inj.mp hlast)
        rw [← Nat.div_add_mod m b, ← Nat.div_add_mod n b, hdiv, hmod]

theorem exists_digit {b n : Nat} {c : Char} (hb : 1 < b) (hb' : b ≤ 16)
    (hc : c ∈ Nat.toDigits b n) : ∃ d < 16, Nat.digitChar d = c := by
  induction n using Nat.strongRecOn with
  | ind n ih =>
    by_cases hn : n < b
    · rw [Nat.toDigits_of_lt_base hn, List.mem_singleton] at hc
      exact ⟨n, Nat.lt_of_lt_of_le hn hb', hc.symm⟩
    · rw [Nat.toDigits_of_base_le hb (Nat.le_of_not_lt hn), List.mem_append,
        List.mem_singleton] at hc
      rcases hc with hc | hc
      · exact ih (n / b) (Nat.div_lt_self (by omega) hb) hc
      · have hmod : n % b < b := Nat.mod_lt n (by omega)
        exact ⟨n % b, Nat.lt_of_lt_of_le hmod hb', hc.symm⟩

/-- **What is no digit** is not among the digits of a number. -/
theorem mem_toDigits_ne {b n : Nat} {c d : Char} (hb : 1 < b) (hb' : b ≤ 16)
    (hd : ∀ k < 16, Nat.digitChar k ≠ d) (hc : c ∈ Nat.toDigits b n) : c ≠ d := by
  obtain ⟨k, hk, rfl⟩ := exists_digit hb hb' hc
  exact hd k hk

namespace Quoting

variable {q : Quoting} {c c' : Char} {r r' : List Char}

/-! ### One character -/

/-- **The delimiter is a quotation mark,** single or double. -/
def Marks (q : Quoting) : Prop := q.delimiter = '"' ∨ q.delimiter = '\''

/-- Texts and characters are quoted with quotation marks. -/
theorem marks (hidden : Char → Bool) :
    (Quoting.text hidden).Marks ∧ (Quoting.char hidden).Marks := ⟨.inl rfl, .inr rfl⟩

/-- What a letter behind a backslash stands for. -/
def unescaped (d : Char) : Char :=
  if d = '0' then '\x00' else if d = 't' then '\t' else if d = 'r' then '\r'
  else if d = 'n' then '\n' else d

/-- **The forms of a character:** a letter behind a backslash, a number, or the character. -/
theorem escapeChar_cases (hq : q.Marks) (c : Char) :
    (∃ d, q.escapeChar c = ['\\', d] ∧ d ≠ 'u' ∧ unescaped d = c) ∨
      q.escapeChar c = byNumber c ∨
      (q.escapeChar c = [c] ∧ c ≠ '\\' ∧ c ≠ q.delimiter) := by
  rw [escapeChar]
  split_ifs with hnull htab hreturn hline hself hhidden
  · exact .inl ⟨'0', rfl, by decide, hnull.symm⟩
  · exact .inl ⟨'t', rfl, by decide, htab.symm⟩
  · exact .inl ⟨'r', rfl, by decide, hreturn.symm⟩
  · exact .inl ⟨'n', rfl, by decide, hline.symm⟩
  · -- a backslash or the delimiter, which are not letters
    have hmark : c = '\\' ∨ c = '"' ∨ c = '\'' := by
      rcases Bool.or_eq_true_iff.mp hself with h | h
      · exact .inl (of_decide_eq_true h)
      · rcases hq with hq | hq
        · exact .inr (.inl (hq ▸ of_decide_eq_true h))
        · exact .inr (.inr (hq ▸ of_decide_eq_true h))
    rcases hmark with rfl | rfl | rfl
    · exact .inl ⟨'\\', rfl, by decide, rfl⟩
    · exact .inl ⟨'"', rfl, by decide, rfl⟩
    · exact .inl ⟨'\'', rfl, by decide, rfl⟩
  · exact .inr (.inl rfl)
  · simp only [Bool.or_eq_true, decide_eq_true_eq, not_or] at hself
    exact .inr (.inr ⟨rfl, hself.1, hself.2⟩)

/-- **Numbered characters** are told apart by the digits up to the closing brace. -/
theorem eq_of_byNumber (h : byNumber c ++ r = byNumber c' ++ r') : c = c' ∧ r = r' := by
  have hstop : ∀ r, Stops (· ≠ '\x7d') ('\x7d' :: r) := stops_cons (by decide)
  have hbrace : ∀ (c d : Char), d ∈ Nat.toDigits 16 c.toNat → d ≠ '\x7d' :=
    fun c d => mem_toDigits_ne (by decide) (by decide) (by decide)
  simp only [byNumber, List.append_assoc] at h
  obtain ⟨hdigits, hrest⟩ := eq_of_stretch (hbrace c) (hbrace c') (hstop r) (hstop r')
    (List.append_cancel_left h)
  have hnat : c.toNat = c'.toNat := eq_of_toDigits (by decide) (by decide) hdigits
  exact ⟨Char.toNat_inj.mp hnat, (List.cons.inj hrest).2⟩

/-- **Characters are told apart by their forms,** which also show where they end. -/
theorem eq_of_escapeChar (hq : q.Marks) (h : q.escapeChar c ++ r = q.escapeChar c' ++ r') :
    c = c' ∧ r = r' := by
  have hnumber : ∀ c, byNumber c = '\\' :: 'u' :: '\x7b' :: (Nat.toDigits 16 c.toNat ++ ['\x7d']) :=
    fun _ => rfl
  rcases escapeChar_cases hq c with ⟨d, hc, hd, hcd⟩ | hc | ⟨hc, hplain, -⟩
  · -- a backslash and a letter
    rcases escapeChar_cases hq c' with ⟨d', hc', -, hcd'⟩ | hc' | ⟨hc', hplain', -⟩
    · rw [hc, hc'] at h
      obtain ⟨-, h⟩ := List.cons.inj h
      obtain ⟨rfl, hr⟩ := List.cons.inj h
      exact ⟨hcd.symm.trans hcd', hr⟩
    · rw [hc, hc', hnumber] at h
      exact absurd (List.cons.inj (List.cons.inj h).2).1 hd
    · rw [hc, hc'] at h
      exact absurd (List.cons.inj h).1.symm hplain'
  · -- a backslash and a number
    rcases escapeChar_cases hq c' with ⟨d', hc', hd', -⟩ | hc' | ⟨hc', hplain', -⟩
    · rw [hc, hc', hnumber] at h
      exact absurd (List.cons.inj (List.cons.inj h).2).1.symm hd'
    · rw [hc, hc'] at h
      exact eq_of_byNumber h
    · rw [hc, hc', hnumber] at h
      exact absurd (List.cons.inj h).1.symm hplain'
  · -- the character itself, which is not a backslash
    rcases escapeChar_cases hq c' with ⟨d', hc', -, -⟩ | hc' | ⟨hc', -, -⟩
    · rw [hc, hc'] at h
      exact absurd (List.cons.inj h).1 hplain
    · rw [hc, hc', hnumber] at h
      exact absurd (List.cons.inj h).1 hplain
    · rw [hc, hc'] at h
      exact List.cons.inj h

/-- No form begins like the delimiter. -/
theorem escapeChar_ne_delimiter (hq : q.Marks) (c : Char) (r r' : List Char) :
    q.escapeChar c ++ r ≠ q.delimiter :: r' := by
  have hbackslash : '\\' ≠ q.delimiter := by
    rcases hq with hq | hq <;> rw [hq] <;> decide
  intro h
  rcases escapeChar_cases hq c with ⟨d, hc, -, -⟩ | hc | ⟨hc, -, hdelimiter⟩ <;> rw [hc] at h
  · exact hbackslash (List.cons.inj h).1
  · exact hbackslash (List.cons.inj h).1
  · exact hdelimiter (List.cons.inj h).1

/-! ### Quoted text -/

theorem eq_of_escape (hq : q.Marks) {cs cs' : List Char}
    (h : q.escape cs ++ q.delimiter :: r = q.escape cs' ++ q.delimiter :: r') :
    cs = cs' ∧ r = r' := by
  induction cs generalizing cs' with
  | nil =>
    cases cs' with
    | nil => exact ⟨rfl, (List.cons.inj h).2⟩
    | cons c' cs' =>
      rw [escape_cons, List.append_assoc] at h
      exact absurd h.symm (escapeChar_ne_delimiter hq c' _ _)
  | cons c cs ih =>
    cases cs' with
    | nil =>
      rw [escape_cons, List.append_assoc] at h
      exact absurd h (escapeChar_ne_delimiter hq c _ _)
    | cons c' cs' =>
      rw [escape_cons, escape_cons, List.append_assoc, List.append_assoc] at h
      obtain ⟨rfl, hrest⟩ := eq_of_escapeChar hq h
      obtain ⟨rfl, hr⟩ := ih hrest
      exact ⟨rfl, hr⟩

/-- **Quoted text says which text is quoted,** whatever follows it and whichever characters are
hidden. -/
theorem eq_of_quote (hq : q.Marks) {cs cs' : List Char} (h : q.quote cs ++ r = q.quote cs' ++ r') :
    cs = cs' ∧ r = r' := by
  simp only [quote, List.cons_append, List.append_assoc] at h
  exact eq_of_escape hq (List.cons.inj h).2

end Quoting

end ItemAttrs.Text
